import ClassDiagram.Text.Blank

/-!
Texts put together from pieces. A list is cut in one way before the first element that a property does not
hold of, so a text can be taken apart again wherever a piece ends before a character that it does not hold.
-/

namespace ClassDiagram.Text

section Cuts

variable {α : Type}

theorem cut_unique {p : α → Prop} {a b u v : List α} (ha : ∀ x ∈ a, p x) (hb : ∀ x ∈ b, p x)
    (hu : ∀ x ∈ u.head?, ¬ p x) (hv : ∀ x ∈ v.head?, ¬ p x) (h : a ++ u = b ++ v) :
    a = b ∧ u = v := by
  induction a generalizing b with
  | nil =>
    cases b with
    | nil => exact ⟨rfl,h⟩
    | cons y b =>
      have hy : y ∈ u.head? := by
        rw [List.nil_append] at h
        simp [h]
      exact absurd (hb y (by simp)) (hu y hy)
  | cons x a ih =>
    cases b with
    | nil =>
      have hx : x ∈ v.head? := by
        rw [List.nil_append] at h
        simp [← h]
      exact absurd (ha x (by simp)) (hv x hx)
    | cons y b =>
      rw [List.cons_append,List.cons_append,List.cons.injEq] at h
      obtain ⟨rfl,h⟩ := h
      obtain ⟨rfl,rfl⟩ := ih (fun z hz => ha z (List.mem_cons_of_mem _ hz))
        (fun z hz => hb z (List.mem_cons_of_mem _ hz)) h
      exact ⟨rfl,rfl⟩

theorem cut_before {c : α} {a b u v : List α} (ha : c ∉ a) (hb : c ∉ b)
    (h : a ++ c :: u = b ++ c :: v) : a = b ∧ u = v := by
  have hne : ∀ {l : List α}, c ∉ l → ∀ x ∈ l, x ≠ c := fun hl x hx hxc => hl (hxc ▸ hx)
  obtain ⟨hab,huv⟩ := cut_unique (hne ha) (hne hb) (by simp) (by simp) h
  exact ⟨hab,List.tail_eq_of_cons_eq huv⟩

end Cuts

theorem not_mem_intercalate {c : Char} {sep : String} {texts : List String} (hsep : c ∉ sep.toList)
    (h : ∀ t ∈ texts, c ∉ t.toList) : c ∉ (sep.intercalate texts).toList := by
  induction texts with
  | nil => simp
  | cons t texts ih =>
    by_cases hne : texts = []
    · simpa [hne] using h t (by simp)
    · have hrest := ih fun t ht => h t (List.mem_cons_of_mem _ ht)
      rw [String.intercalate_cons_of_ne_nil hne,String.toList_append,String.toList_append]
      simp only [List.mem_append,not_or]
      exact ⟨⟨h t (by simp),hsep⟩,hrest⟩

theorem splitAtEach_of_none {p : Char → Bool} {cs : List Char} (h : ∀ c ∈ cs, p c = false) :
    splitAtEach p cs = [cs] := by
  induction cs with
  | nil => rfl
  | cons c cs ih =>
    have hc : ¬ p c = true := by simp [h c (by simp)]
    rw [splitAtEach,if_neg hc,ih fun d hd => h d (List.mem_cons_of_mem _ hd)]

theorem splitAtEach_cut (p : Char → Bool) {c : Char} (hc : p c = true) (cs rest : List Char) :
    splitAtEach p (cs ++ c :: rest) = splitAtEach p cs ++ splitAtEach p rest := by
  induction cs with
  | nil => simp [splitAtEach,hc]
  | cons d cs ih =>
    obtain ⟨piece,pieces,hpieces⟩ := List.exists_cons_of_ne_nil (splitAtEach_ne_nil p cs)
    rw [List.cons_append,splitAtEach,splitAtEach,ih,hpieces]
    split
    · rfl
    · rfl

theorem splitAtEach_append {p : Char → Bool} {c : Char} {cs : List Char} (hc : p c = true)
    (h : ∀ d ∈ cs, p d = false) (rest : List Char) :
    splitAtEach p (cs ++ c :: rest) = cs :: splitAtEach p rest := by
  rw [splitAtEach_cut p hc,splitAtEach_of_none h,List.singleton_append]

theorem splitAtEach_intercalate {sep : Char} {mark : String} (hmark : mark.toList = [sep])
    {names : List String} (hne : names ≠ []) (h : ∀ n ∈ names, sep ∉ n.toList) :
    splitAtEach (· = sep) (mark.intercalate names).toList = names.map String.toList := by
  have hnone : ∀ n ∈ names, ∀ c ∈ n.toList, decide (c = sep) = false := by
    intro n hn c hc
    rw [decide_eq_false_iff_not]
    exact fun he => h n hn (he ▸ hc)
  clear h
  induction names with
  | nil => exact absurd rfl hne
  | cons name names ih =>
    by_cases hw : names = []
    · subst hw
      simp [splitAtEach_of_none (hnone name (by simp))]
    · have hrest := ih hw fun n hn => hnone n (List.mem_cons_of_mem _ hn)
      have htext : (mark.intercalate (name :: names)).toList =
          name.toList ++ sep :: (mark.intercalate names).toList := by
        rw [String.intercalate_cons_of_ne_nil hw]
        simp [hmark]
      rw [htext,splitAtEach_append (by simp) (hnone name (by simp)),hrest,List.map_cons]

theorem separatorless_of_mem_splitAtEach {p : Char → Bool} {cs piece : List Char}
    (h : piece ∈ splitAtEach p cs) : ∀ c ∈ piece, p c = false := by
  induction cs generalizing piece with
  | nil =>
    obtain rfl : piece = [] := by simpa [splitAtEach] using h
    simp
  | cons d cs ih =>
    obtain ⟨first,rest,hpieces⟩ := List.exists_cons_of_ne_nil (splitAtEach_ne_nil p cs)
    rw [splitAtEach] at h
    split at h
    · rcases List.mem_cons.mp h with rfl | h
      · simp
      · exact ih h
    · rename_i hd
      rw [hpieces] at h ih
      rcases List.mem_cons.mp h with rfl | h
      · exact List.forall_mem_cons.mpr ⟨by simpa using hd,ih (by simp)⟩
      · exact ih (List.mem_cons_of_mem _ h)

theorem singleSpaced_of_solid {s : String} (hne : s ≠ "") (h : ∀ c ∈ s.toList, isBlank c = false) :
    singleSpaced s = s := by
  have hchars : s.toList ≠ [] := by simpa using hne
  have hwords : words s.toList = [s.toList] := by
    rw [words,splitAtEach_of_none h]
    simp [hchars]
  rw [singleSpaced,hwords,List.map_singleton,String.intercalate_singleton,String.ofList_toList]

theorem takeWhile_reverse_append {sep : Char} {back : List Char} (h : sep ∉ back) (rest : List Char) :
    (back.reverse ++ rest).takeWhile (· ≠ sep) = back.reverse ++ rest.takeWhile (· ≠ sep) := by
  refine List.takeWhile_append_of_pos fun c hc => ?_
  rw [decide_eq_true_iff]
  rintro rfl
  exact h (List.mem_reverse.mp hc)

theorem afterLast_append {sep : Char} (front : List Char) {back : List Char} (h : sep ∉ back) :
    afterLast sep (front ++ sep :: back) = back := by
  have hrev : (front ++ sep :: back).reverse = back.reverse ++ sep :: front.reverse := by simp
  rw [afterLast,hrev,takeWhile_reverse_append h]
  simp

theorem lastSegment_append (front : String) {back : String} (h : '.' ∉ back.toList) :
    lastSegment (front ++ "." ++ back) = back := by
  have hl : (front ++ "." ++ back).toList = front.toList ++ '.' :: back.toList := by
    simp [String.toList_append]
  rw [lastSegment,hl,afterLast_append _ h,String.ofList_toList]

theorem lastSegment_of_dotless {name : String} (h : '.' ∉ name.toList) : lastSegment name = name := by
  have htake := takeWhile_reverse_append h []
  rw [List.append_nil] at htake
  rw [lastSegment,afterLast,htake]
  simp

end ClassDiagram.Text

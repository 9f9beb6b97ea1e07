import ClassDiagram.Proofs.Java.JavaType
import ClassDiagram.Proofs.Text.Cutting

/-!
Printed types can be read back. A printed type ends before the first character that cannot go on with it,
so it is cut off in one way from whatever follows it, at every depth: the arguments of a type one after
another, and the segments of a name one after another. Two types with the same printed form are the same.
-/

namespace ClassDiagram.Java

section Joined

variable {α : Type}

def CutsOff (Follows : List Char → Prop) (print : α → String) (x : α) : Prop :=
  ∀ y w z, Follows w → Follows z → (print x).toList ++ w = (print y).toList ++ z → x = y ∧ w = z

def joinedAfter (sep : String) (texts : List String) (rest : List Char) : List Char :=
  match texts with
  | [] => rest
  | t :: ts => sep.toList ++ ((sep.intercalate (t :: ts)).toList ++ rest)

theorem toList_intercalate_cons (sep text : String) (texts : List String) (rest : List Char) :
    (sep.intercalate (text :: texts)).toList ++ rest = text.toList ++ joinedAfter sep texts rest := by
  cases texts with
  | nil => rw [String.intercalate_singleton,joinedAfter]
  | cons t ts =>
    rw [String.intercalate_cons_of_ne_nil (by simp),String.toList_append,String.toList_append,
      joinedAfter,List.append_assoc,List.append_assoc]

variable {Follows : List Char → Prop} {print : α → String} {sep : String} {c : Char} {cs : List Char}

theorem follows_joinedAfter (hsep : sep.toList = c :: cs) (hfollows : ∀ rest, Follows (c :: rest))
    (texts : List String) {rest : List Char} (hrest : Follows rest) :
    Follows (joinedAfter sep texts rest) := by
  cases texts with
  | nil => exact hrest
  | cons t ts =>
    rw [joinedAfter,hsep]
    exact hfollows _

theorem joined_cut (hsep : sep.toList = c :: cs) (hfollows : ∀ rest, Follows (c :: rest))
    {xs ys : List α} {u v : List Char} (hxs : xs ≠ []) (hys : ys ≠ [])
    (hcut : ∀ x ∈ xs, CutsOff Follows print x) (hu : Follows u) (hv : Follows v)
    (hcu : c ∉ u.head?) (hcv : c ∉ v.head?)
    (h : (sep.intercalate (xs.map print)).toList ++ u = (sep.intercalate (ys.map print)).toList ++ v) :
    xs = ys ∧ u = v := by
  induction xs generalizing ys with
  | nil => exact absurd rfl hxs
  | cons x xs ih =>
    obtain ⟨y,ys,rfl⟩ := List.exists_cons_of_ne_nil hys
    rw [List.map_cons,List.map_cons,toList_intercalate_cons,toList_intercalate_cons] at h
    obtain ⟨rfl,hrest⟩ := hcut x (by simp) y _ _ (follows_joinedAfter hsep hfollows _ hu)
      (follows_joinedAfter hsep hfollows _ hv) h
    cases xs with
    | nil =>
      cases ys with
      | nil => exact ⟨rfl,hrest⟩
      | cons y' ys =>
        simp only [List.map_nil,List.map_cons,joinedAfter,hsep] at hrest
        exact absurd (by simp [hrest]) hcu
    | cons x' xs =>
      cases ys with
      | nil =>
        simp only [List.map_nil,List.map_cons,joinedAfter,hsep] at hrest
        exact absurd (by simp [← hrest]) hcv
      | cons y' ys =>
        simp only [List.map_cons,joinedAfter,List.append_cancel_left_eq] at hrest
        obtain ⟨hrec,huv⟩ := ih (List.cons_ne_nil x' xs) (List.cons_ne_nil y' ys)
          (fun a ha => hcut a (List.mem_cons_of_mem _ ha)) hrest
        exact ⟨congrArg (List.cons x) hrec,huv⟩

end Joined

-- What can come after a type argument, and what can come after one segment of a name.
def EndsArgument (rest : List Char) : Prop := ∀ c ∈ rest.head?, c = ',' ∨ c = '>'

def EndsSegment (rest : List Char) : Prop :=
  ∀ c ∈ rest.head?, Token.isWordPart c = false ∧ c ≠ '<'

theorem toList_pairsOfBrackets_succ (rank : Nat) :
    (pairsOfBrackets (rank + 1)).toList = '[' :: ']' :: (pairsOfBrackets rank).toList := by
  rw [Nat.add_comm,pairsOfBrackets_add,String.toList_append]
  rfl

-- What comes after the name of a class: the dimensions of an array of it, or the end of an argument.
theorem EndsArgument.head_brackets {rest : List Char} (h : EndsArgument rest) (rank : Nat) :
    ∀ c ∈ ((pairsOfBrackets rank).toList ++ rest).head?, c = ',' ∨ c = '>' ∨ c = '[' := by
  intro c hc
  cases rank with
  | zero => exact (h c hc).imp_right .inl
  | succ rank =>
    rw [toList_pairsOfBrackets_succ] at hc
    exact .inr (.inr (by simpa using hc.symm))

theorem pairsOfBrackets_cut {m n : Nat} {u v : List Char} (hu : EndsArgument u) (hv : EndsArgument v)
    (h : (pairsOfBrackets m).toList ++ u = (pairsOfBrackets n).toList ++ v) : m = n ∧ u = v := by
  have hopen : ∀ {w rest : List Char}, EndsArgument w → w ≠ '[' :: rest := by
    rintro w rest hw rfl
    exact absurd (hw '[' rfl) (by decide)
  induction m generalizing n with
  | zero =>
    cases n with
    | zero => exact ⟨rfl,h⟩
    | succ n =>
      rw [toList_pairsOfBrackets_succ] at h
      exact absurd h (hopen hu)
  | succ m ih =>
    cases n with
    | zero =>
      rw [toList_pairsOfBrackets_succ] at h
      exact absurd h.symm (hopen hv)
    | succ n =>
      rw [toList_pairsOfBrackets_succ,toList_pairsOfBrackets_succ] at h
      simp only [List.cons_append,List.cons.injEq,true_and] at h
      obtain ⟨rfl,huv⟩ := ih h
      exact ⟨rfl,huv⟩

abbrev Segment := Identifier × List TypeArgument

def Segment.print (s : Segment) : String := s.1.text ++ inAngles (TypeArgument.printAll s.2)

namespace ClassType

def segments : ClassType → List Segment
  | .simple name arguments => [(name,arguments)]
  | .inner outer name arguments => outer.segments ++ [(name,arguments)]

theorem segments_ne_nil (c : ClassType) : c.segments ≠ [] := by
  cases c <;> simp [segments]

theorem print_eq_segments : (c : ClassType) → c.print = ".".intercalate (c.segments.map Segment.print)
  | .simple name arguments => by simp [print,segments,Segment.print]
  | .inner outer name arguments => by
    have hne : outer.segments.map Segment.print ≠ [] := by simpa using outer.segments_ne_nil
    rw [print,outer.print_eq_segments,segments,List.map_append,
      String.intercalate_append_of_ne_nil hne (by simp)]
    simp [Segment.print,String.append_assoc]

theorem segments_injective : {c d : ClassType} → c.segments = d.segments → c = d
  | .simple name arguments, .simple _ _, h => by
    simpa [segments] using h
  | .simple _ _, .inner outer _ _, h => by
    rw [segments,segments] at h
    exact absurd (List.append_inj' ((List.nil_append _).trans h) rfl).1.symm outer.segments_ne_nil
  | .inner outer _ _, .simple _ _, h => by
    rw [segments,segments] at h
    exact absurd (List.append_inj' (h.trans (List.nil_append _).symm) rfl).1 outer.segments_ne_nil
  | .inner outer name arguments, .inner other _ _, h => by
    obtain ⟨houter,hlast⟩ := List.append_inj' h rfl
    obtain rfl := segments_injective houter
    simpa using hlast

end ClassType

theorem Identifier.wordParts (name : Identifier) :
    ∀ c ∈ name.text.toList, Token.isWordPart c = true := fun c hc => (name.chars c hc).1

theorem toList_inAngles_cons (a : TypeArgument) (rest : List TypeArgument) :
    (inAngles (TypeArgument.printAll (a :: rest))).toList =
      '<' :: ((", ".intercalate ((a :: rest).map TypeArgument.print)).toList ++ ['>']) := by
  rw [TypeArgument.printAll_eq_map]
  simp [inAngles,String.toList_append]

section Segments

variable {arguments others : List TypeArgument} {w z : List Char}

variable (arguments) in
theorem head_inAngles (hw : EndsSegment w) :
    ∀ c ∈ ((inAngles (TypeArgument.printAll arguments)).toList ++ w).head?,
      Token.isWordPart c = false := by
  intro c hc
  cases arguments with
  | nil => exact (hw c hc).1
  | cons a rest =>
    rw [toList_inAngles_cons] at hc
    obtain rfl : '<' = c := by simpa using hc
    decide

theorem inAngles_cut (hcut : ∀ a ∈ arguments, CutsOff EndsArgument TypeArgument.print a)
    (hw : EndsSegment w) (hz : EndsSegment z)
    (h : (inAngles (TypeArgument.printAll arguments)).toList ++ w =
      (inAngles (TypeArgument.printAll others)).toList ++ z) : arguments = others ∧ w = z := by
  have hopen : ∀ {v rest : List Char}, EndsSegment v → v ≠ '<' :: rest := by
    rintro v rest hv rfl
    exact absurd rfl (hv '<' rfl).2
  cases arguments with
  | nil =>
    cases others with
    | nil => exact ⟨rfl,h⟩
    | cons b others =>
      rw [toList_inAngles_cons] at h
      exact absurd h (hopen hw)
  | cons a arguments =>
    cases others with
    | nil =>
      rw [toList_inAngles_cons] at h
      exact absurd h.symm (hopen hz)
    | cons b others =>
      rw [toList_inAngles_cons,toList_inAngles_cons] at h
      simp only [List.cons_append,List.append_assoc,List.cons.injEq,true_and,List.nil_append] at h
      have hsep : ", ".toList = ',' :: [' '] := rfl
      have hclosing : ∀ rest, EndsArgument ('>' :: rest) := by simp [EndsArgument]
      obtain ⟨hsame,hrest⟩ := joined_cut hsep (by simp [EndsArgument]) (List.cons_ne_nil a arguments)
        (List.cons_ne_nil b others) hcut (hclosing w) (hclosing z) (by simp) (by simp) h
      exact ⟨hsame,List.tail_eq_of_cons_eq hrest⟩

theorem segment_cuts {s : Segment} (hcut : ∀ a ∈ s.2, CutsOff EndsArgument TypeArgument.print a) :
    CutsOff EndsSegment Segment.print s := by
  intro t w z hw hz h
  obtain ⟨name,arguments⟩ := s
  obtain ⟨other,others⟩ := t
  simp only [Segment.print,String.toList_append,List.append_assoc] at h
  have hplain : ∀ {c : Char}, Token.isWordPart c = false → ¬ Token.isWordPart c = true := by simp
  obtain ⟨hname,hrest⟩ := Text.cut_unique name.wordParts other.wordParts
    (fun c hc => hplain (head_inAngles _ hw c hc)) (fun c hc => hplain (head_inAngles _ hz c hc)) h
  obtain ⟨rfl,hwz⟩ := inAngles_cut hcut hw hz hrest
  obtain rfl := Identifier.eq_of_text (String.toList_injective hname)
  exact ⟨rfl,hwz⟩

end Segments

def EndsClass (rest : List Char) : Prop := EndsSegment rest ∧ '.' ∉ rest.head?

theorem EndsArgument.endsClass {rest : List Char} (h : EndsArgument rest) (rank : Nat) :
    EndsClass ((pairsOfBrackets rank).toList ++ rest) := by
  refine ⟨fun c hc => ?_,fun hdot => ?_⟩
  · rcases h.head_brackets rank c hc with rfl | rfl | rfl <;> decide
  · exact absurd (h.head_brackets rank '.' hdot) (by decide)

theorem toList_dot : ".".toList = ['.'] := rfl

theorem endsSegment_dot (rest : List Char) : EndsSegment ('.' :: rest) := by
  intro c hc
  obtain rfl : '.' = c := by simpa using hc
  decide

section Types

variable {c : ClassType} {t : JavaType}

theorem class_cuts (hcut : ∀ s ∈ c.segments, ∀ a ∈ s.2, CutsOff EndsArgument TypeArgument.print a) :
    CutsOff EndsClass ClassType.print c := by
  intro d w z hw hz h
  rw [c.print_eq_segments,d.print_eq_segments] at h
  obtain ⟨hsegments,hwz⟩ := joined_cut toList_dot endsSegment_dot c.segments_ne_nil d.segments_ne_nil
    (fun s hs => segment_cuts (hcut s hs)) hw.1 hz.1 hw.2 hz.2 h
  exact ⟨ClassType.segments_injective hsegments,hwz⟩

theorem ClassType.first_word (c : ClassType) {rest : List Char} (hrest : EndsSegment rest) :
    ∃ (name : Identifier) (tail : List Char), c.print.toList ++ rest = name.text.toList ++ tail ∧
      ∀ x ∈ tail.head?, Token.isWordPart x = false := by
  obtain ⟨s,ss,hs⟩ := List.exists_cons_of_ne_nil c.segments_ne_nil
  have hfollows := follows_joinedAfter toList_dot endsSegment_dot (ss.map Segment.print) hrest
  refine ⟨s.1,_,?_,head_inAngles s.2 hfollows⟩
  rw [c.print_eq_segments,hs,List.map_cons,toList_intercalate_cons,Segment.print,String.toList_append,
    List.append_assoc]

theorem Primitive.word_injective {p q : Primitive} (h : p.word = q.word) : p = q := by
  cases p <;> cases q <;> simp_all [Primitive.word]

theorem Primitive.wordParts (p : Primitive) : ∀ c ∈ p.word.toList, Token.isWordPart c = true := by
  have hall : p.word.toList.all Token.isWordPart = true := by cases p <;> decide
  exact List.all_eq_true.mp hall

theorem Primitive.word_ne (p : Primitive) (name : Identifier) : p.word ≠ name.text := by
  intro h
  have hnone := name.not_primitive
  rw [← h] at hnone
  cases p <;> exact absurd hnone (by decide)

theorem EndsArgument.not_word {rest : List Char} (h : EndsArgument rest) (rank : Nat) :
    ∀ c ∈ ((pairsOfBrackets rank).toList ++ rest).head?, ¬ Token.isWordPart c = true := fun c hc => by
  simp [((h.endsClass rank).1 c hc).1]

theorem primitive_ne_named {p : Primitive} {m n : Nat} {w z : List Char} (hw : EndsArgument w)
    (hz : EndsArgument z) :
    (JavaType.primitive p m).print.toList ++ w ≠ (JavaType.named c n).print.toList ++ z := by
  intro h
  obtain ⟨name,tail,hsplit,htail⟩ := c.first_word (hz.endsClass n).1
  simp only [JavaType.print,String.toList_append,List.append_assoc,hsplit] at h
  obtain ⟨hword,_⟩ := Text.cut_unique p.wordParts name.wordParts (hw.not_word m)
    (fun x hx => by simp [htail x hx]) h
  exact p.word_ne name (String.toList_injective hword)

theorem primitive_cuts (p : Primitive) (rank : Nat) :
    CutsOff EndsArgument JavaType.print (.primitive p rank) := by
  intro s w z hw hz h
  cases s with
  | named d n => exact absurd h (primitive_ne_named hw hz)
  | primitive q n =>
    simp only [JavaType.print,String.toList_append,List.append_assoc] at h
    obtain ⟨hword,hrest⟩ := Text.cut_unique p.wordParts q.wordParts (hw.not_word rank) (hz.not_word n) h
    obtain ⟨rfl,hwz⟩ := pairsOfBrackets_cut hw hz hrest
    obtain rfl := Primitive.word_injective (String.toList_injective hword)
    exact ⟨rfl,hwz⟩

theorem named_cuts (rank : Nat)
    (hcut : ∀ s ∈ c.segments, ∀ a ∈ s.2, CutsOff EndsArgument TypeArgument.print a) :
    CutsOff EndsArgument JavaType.print (.named c rank) := by
  intro s w z hw hz h
  cases s with
  | primitive q n => exact absurd h.symm (primitive_ne_named hz hw)
  | named d n =>
    simp only [JavaType.print,String.toList_append,List.append_assoc] at h
    obtain ⟨rfl,hrest⟩ := class_cuts hcut d _ _ (hw.endsClass rank) (hz.endsClass n) h
    obtain ⟨rfl,hwz⟩ := pairsOfBrackets_cut hw hz hrest
    exact ⟨rfl,hwz⟩

theorem word_ne_mark {word : List Char} (hne : word ≠ [])
    (hparts : ∀ c ∈ word, Token.isWordPart c = true) (rest z : List Char) :
    word ++ rest ≠ '?' :: z := by
  obtain ⟨c,cs,rfl⟩ := List.exists_cons_of_ne_nil hne
  intro h
  obtain ⟨rfl,_⟩ := List.cons.inj h
  exact absurd (hparts '?' (by simp)) (by decide)

theorem JavaType.print_ne_mark (t : JavaType) {w : List Char} (hw : EndsArgument w) (z : List Char) :
    t.print.toList ++ w ≠ '?' :: z := by
  cases t with
  | primitive p rank =>
    rw [print,String.toList_append,List.append_assoc]
    exact word_ne_mark (by cases p <;> decide) p.wordParts _ _
  | named c rank =>
    obtain ⟨name,tail,hsplit,_⟩ := c.first_word (hw.endsClass rank).1
    rw [print,String.toList_append,List.append_assoc,hsplit]
    exact word_ne_mark name.text_ne_nil name.wordParts _ _

theorem toList_bounded (bound : Bound) (t : JavaType) :
    (TypeArgument.bounded bound t).print.toList =
      '?' :: ' ' :: (bound.word.toList ++ ' ' :: t.print.toList) := by
  rw [TypeArgument.print,String.toList_append,String.toList_append,String.toList_append,
    List.append_assoc]
  rfl

theorem EndsArgument.ne_blank {w : List Char} (hw : EndsArgument w) (rest : List Char) :
    w ≠ ' ' :: rest := by
  rintro rfl
  exact absurd (hw ' ' rfl) (by decide)

theorem type_argument_cuts (hcut : CutsOff EndsArgument JavaType.print t) :
    CutsOff EndsArgument TypeArgument.print (.type t) := by
  intro b w z hw hz h
  cases b with
  | type s =>
    obtain ⟨rfl,hwz⟩ := hcut s w z hw hz h
    exact ⟨rfl,hwz⟩
  | unbounded => exact absurd h (t.print_ne_mark hw _)
  | bounded bound s =>
    rw [toList_bounded] at h
    exact absurd h (t.print_ne_mark hw _)

theorem unbounded_cuts : CutsOff EndsArgument TypeArgument.print .unbounded := by
  intro b w z hw hz h
  cases b with
  | type s => exact absurd h.symm (s.print_ne_mark hz _)
  | unbounded => exact ⟨rfl,List.tail_eq_of_cons_eq h⟩
  | bounded bound s =>
    rw [toList_bounded] at h
    exact absurd (List.tail_eq_of_cons_eq h) (hw.ne_blank _)

theorem bounded_cuts (bound : Bound) (hcut : CutsOff EndsArgument JavaType.print t) :
    CutsOff EndsArgument TypeArgument.print (.bounded bound t) := by
  intro b w z hw hz h
  rw [toList_bounded] at h
  cases b with
  | type s => exact absurd h.symm (s.print_ne_mark hz _)
  | unbounded => exact absurd (List.tail_eq_of_cons_eq h).symm (hz.ne_blank _)
  | bounded other s =>
    rw [toList_bounded] at h
    simp only [List.cons_append,List.append_assoc,List.cons.injEq,true_and] at h
    have hword : ∀ bound : Bound, ' ' ∉ bound.word.toList := by
      intro bound
      cases bound <;> decide
    obtain ⟨hbound,hrest⟩ := Text.cut_before (hword bound) (hword other) h
    obtain ⟨rfl,hwz⟩ := hcut s w z hw hz hrest
    obtain rfl : bound = other := by
      cases bound <;> cases other <;> simp_all [Bound.word]
    exact ⟨rfl,hwz⟩

end Types

-- The recursion is the one of the types: each is cut off if the arguments inside it are.
mutual

theorem JavaType.cuts : (t : JavaType) → CutsOff EndsArgument JavaType.print t
  | .primitive p rank => primitive_cuts p rank
  | .named c rank => named_cuts rank c.arguments_cut

theorem ClassType.arguments_cut : (c : ClassType) →
    ∀ s ∈ c.segments, ∀ a ∈ s.2, CutsOff EndsArgument TypeArgument.print a
  | .simple name arguments => fun s hs => by
    obtain rfl := List.mem_singleton.mp hs
    exact TypeArgument.all_cut arguments
  | .inner outer name arguments => fun s hs => by
    rcases List.mem_append.mp hs with hs | hs
    · exact outer.arguments_cut s hs
    · obtain rfl := List.mem_singleton.mp hs
      exact TypeArgument.all_cut arguments

theorem TypeArgument.cuts : (a : TypeArgument) → CutsOff EndsArgument TypeArgument.print a
  | .type t => type_argument_cuts t.cuts
  | .unbounded => unbounded_cuts
  | .bounded bound t => bounded_cuts bound t.cuts

theorem TypeArgument.all_cut : (arguments : List TypeArgument) →
    ∀ a ∈ arguments, CutsOff EndsArgument TypeArgument.print a
  | [] => fun a ha => by cases ha
  | b :: rest => List.forall_mem_cons.mpr ⟨b.cuts,TypeArgument.all_cut rest⟩

end

theorem JavaType.print_injective {t s : JavaType} (h : t.print = s.print) : t = s := by
  have hnil : EndsArgument [] := by simp [EndsArgument]
  exact (t.cuts s [] [] hnil hnil (by rw [h])).1

end ClassDiagram.Java

import ClassDiagram.PlantUml
import ClassDiagram.Proofs.Diagram.Imports
import ClassDiagram.Proofs.Text.Cutting
import Mathlib.Tactic.MkIffOfInductiveProp

/-!
The text of a diagram can be read in one way only. Every part of it ends before a character that the part
itself does not hold, and every kind of line opens with a character of its own, so the text gives back the
title, what is shown of each entity, and the relationships.
-/

namespace ClassDiagram

section Lists

variable {α β γ : Type}

theorem map_eq_map_of {f : α → β} {g : α → γ} {as bs : List α}
    (hfg : ∀ a ∈ as, ∀ b ∈ bs, f a = f b → g a = g b) (h : as.map f = bs.map f) :
    as.map g = bs.map g := by
  induction as generalizing bs with
  | nil =>
    rw [List.map_nil,eq_comm,List.map_eq_nil_iff] at h
    rw [h]
  | cons a as ih =>
    cases bs with
    | nil => simp at h
    | cons b bs =>
      rw [List.map_cons,List.map_cons,List.cons.injEq] at h
      have hrest := ih (fun x hx y hy => hfg x (List.mem_cons_of_mem _ hx) y
        (List.mem_cons_of_mem _ hy)) h.2
      rw [List.map_cons,List.map_cons,hrest,hfg a (by simp) b (by simp) h.1]

end Lists

def Lacks (mark : Char → Bool) (s : String) : Prop := ∀ c ∈ s.toList, mark c = false

instance (mark : Char → Bool) (s : String) : Decidable (Lacks mark s) :=
  List.decidableBAll (fun c => mark c = false) s.toList

theorem Lacks.not_mem {mark : Char → Bool} {s : String} (h : Lacks mark s) {c : Char}
    (hc : mark c = true) : c ∉ s.toList := by
  intro hmem
  rw [h c hmem] at hc
  cases hc

def endsQuoted (c : Char) : Bool := c = '\n' || c = '"'

def endsName (c : Char) : Bool :=
  Text.isBlank c || c = '(' || c = ')' || c = '{' || c = '}' || c = ':'

def endsType (c : Char) : Bool := c = '\n' || c = '(' || c = ')'

@[mk_iff]
structure Field.Plain (f : Field) : Prop where
  name : Lacks endsName f.name
  type : Lacks endsType f.type

@[mk_iff]
structure Method.Plain (m : Method) : Prop where
  name : Lacks endsName m.name
  parameters : ∀ t ∈ m.parameters, Lacks endsType t
  returnType : Lacks endsType m.returnType

@[mk_iff]
structure Entity.Plain (e : Entity) : Prop where
  qualifiedName : Lacks endsQuoted e.qualifiedName
  fields : ∀ f ∈ e.fields, f.Plain
  methods : ∀ m ∈ e.methods, m.Plain

@[mk_iff]
structure Relationship.Plain (r : Relationship) : Prop where
  source : Lacks endsQuoted r.source
  target : Lacks endsQuoted r.target

@[mk_iff]
structure Document.Plain (d : Document) : Prop where
  types : ∀ e ∈ d.types, e.Plain
  relationships : ∀ r ∈ d.relationships, r.Plain

instance (f : Field) : Decidable f.Plain := decidable_of_iff _ (Field.plain_iff f).symm

instance (m : Method) : Decidable m.Plain := decidable_of_iff _ (Method.plain_iff m).symm

instance (e : Entity) : Decidable e.Plain := decidable_of_iff _ (Entity.plain_iff e).symm

instance (r : Relationship) : Decidable r.Plain :=
  decidable_of_iff _ (Relationship.plain_iff r).symm

instance (d : Document) : Decidable d.Plain := decidable_of_iff _ (Document.plain_iff d).symm

-- The parameters of a method are shown joined, so their number is not.
structure MethodFace where
  visibility : Visibility
  isStatic : Bool
  isAbstract : Bool
  name : String
  parameters : String
  returnType : String
  deriving DecidableEq

def Method.face (m : Method) : MethodFace :=
  ⟨m.visibility,m.isStatic,m.isAbstract,m.name,", ".intercalate m.parameters,m.returnType⟩

structure EntityFace where
  kind : EntityKind
  qualifiedName : String
  fields : List Field
  methods : List MethodFace
  deriving DecidableEq

def Entity.face (e : Entity) : EntityFace :=
  ⟨e.kind,e.qualifiedName,e.fields,e.methods.map Method.face⟩

theorem Method.Plain.parameters_lack {m : Method} (h : m.Plain) {c : Char} (hc : endsType c = true) :
    c ∉ (", ".intercalate m.parameters).toList := by
  have hsep : c ∉ ", ".toList := by
    intro hmem
    have hcases : c = ',' ∨ c = ' ' := by simpa using hmem
    rcases hcases with rfl | rfl <;> exact absurd hc (by decide)
  exact Text.not_mem_intercalate hsep fun t ht => (h.parameters t ht).not_mem hc

namespace PlantUml

section Members

variable {r s : List Char}

theorem glyph_cut {v w : Visibility} (h : (glyph v).toList ++ r = (glyph w).toList ++ s) :
    v = w ∧ r = s := by
  cases v <;> cases w <;> simp [glyph] at h <;> exact ⟨rfl,h⟩

theorem tag_cut {text : String} {a b : Bool} (hr : ¬ text.toList <+: r) (hs : ¬ text.toList <+: s)
    (h : (tag a text).toList ++ r = (tag b text).toList ++ s) : a = b ∧ r = s := by
  cases a <;> cases b <;> simp only [tag,if_true,Bool.false_eq_true,if_false] at h
  · exact ⟨rfl,by simpa using h⟩
  · exact absurd ⟨s,by simpa using h.symm⟩ hr
  · exact absurd ⟨r,by simpa using h⟩ hs
  · exact ⟨rfl,List.append_cancel_left h⟩

theorem not_prefix_of_head {text : List Char} {c : Char} (ht : text.head? = some c)
    (hr : ∀ x ∈ r.head?, x ≠ c) : ¬ text <+: r := by
  rintro ⟨t,rfl⟩
  exact hr c (by simp [ht]) rfl

theorem name_head {name : String} (h : Lacks endsName name) (hr : ∀ x ∈ r.head?, x ≠ '{') :
    ∀ x ∈ (name.toList ++ r).head?, x ≠ '{' := by
  cases hn : name.toList with
  | nil => exact hr
  | cons c cs =>
    have hc : '{' ∉ name.toList := h.not_mem (by decide)
    rw [hn] at hc
    intro x hx hbrace
    simp only [List.cons_append,List.head?_cons,Option.mem_some_iff] at hx
    exact hc (by simp [hx,hbrace])

end Members

def typeSuffix (type : String) : String := if type = "" then "" else " : " ++ type

theorem typeSuffix_injective : Function.Injective typeSuffix := by
  intro s t h
  simp only [typeSuffix] at h
  split at h <;> split at h
  · simp_all
  · exact absurd (congrArg String.toList h) (by simp)
  · exact absurd (congrArg String.toList h) (by simp)
  · exact (String.append_right_inj _).mp h

theorem typeSuffix_head (type : String) : ∀ c ∈ (typeSuffix type).toList.head?, c = ' ' := by
  rw [typeSuffix]
  split <;> simp

theorem field_eq (f : Field) :
    field f = glyph f.visibility ++ staticTag f.isStatic ++ f.name ++ typeSuffix f.type := by
  simp only [field,typeSuffix]
  split <;> simp [String.append_assoc]

theorem field_injective {f g : Field} (hf : f.Plain) (hg : g.Plain) (h : field f = field g) :
    f = g := by
  have hopen : ∀ {k : Field}, k.Plain →
      ¬ "\x7bstatic\x7d ".toList <+: k.name.toList ++ (typeSuffix k.type).toList := fun hk =>
    not_prefix_of_head (by simp) (name_head hk.name fun x hx => by simp [typeSuffix_head _ x hx])
  have hname : ∀ {k : Field}, k.Plain → ∀ c ∈ k.name.toList, c ≠ ' ' := fun hk c hc hblank =>
    hk.name.not_mem (by decide) (hblank ▸ hc)
  have hsuffix : ∀ k : Field, ∀ c ∈ (typeSuffix k.type).toList.head?, ¬ c ≠ ' ' := fun k c hc hne =>
    hne (typeSuffix_head _ c hc)
  have hchars := congrArg String.toList h
  simp only [field_eq,String.toList_append,List.append_assoc] at hchars
  obtain ⟨hvisibility,hchars⟩ := glyph_cut hchars
  obtain ⟨hstatic,hchars⟩ := tag_cut (hopen hf) (hopen hg) hchars
  obtain ⟨hn,ht⟩ := Text.cut_unique (hname hf) (hname hg) (hsuffix f) (hsuffix g) hchars
  cases f
  cases g
  simp only [Field.mk.injEq]
  exact ⟨hvisibility,hstatic,typeSuffix_injective (String.toList_inj.mp ht),String.toList_inj.mp hn⟩

theorem method_toList (m : Method) :
    (method m).toList = (glyph m.visibility).toList ++ ((staticTag m.isStatic).toList ++
      ((abstractTag m.isAbstract).toList ++ (m.name.toList ++ '(' ::
        ((", ".intercalate m.parameters).toList ++ ')' :: (" : ".toList ++ m.returnType.toList))))) := by
  simp [method]

theorem method_face {m n : Method} (hm : m.Plain) (hn : n.Plain) (h : method m = method n) :
    m.face = n.face := by
  have habstract : ∀ {k : Method}, k.Plain → ∀ rest : List Char,
      ¬ "\x7babstract\x7d ".toList <+: k.name.toList ++ '(' :: rest := fun hk rest =>
    not_prefix_of_head (by simp) (name_head hk.name (by simp))
  have hstatic : ∀ {k : Method}, k.Plain → ∀ rest : List Char, ¬ "\x7bstatic\x7d ".toList <+:
      (abstractTag k.isAbstract).toList ++ (k.name.toList ++ '(' :: rest) := by
    intro k hk rest
    cases hk' : k.isAbstract with
    | false =>
      have hplain : ¬ "\x7bstatic\x7d ".toList <+: k.name.toList ++ '(' :: rest :=
        not_prefix_of_head (by simp) (name_head hk.name (by simp))
      simpa [abstractTag,tag] using hplain
    | true => simp [abstractTag,tag]
  have hchars := congrArg String.toList h
  simp only [method_toList] at hchars
  obtain ⟨hvisibility,hchars⟩ := glyph_cut hchars
  obtain ⟨hs,hchars⟩ := tag_cut (hstatic hm _) (hstatic hn _) hchars
  obtain ⟨ha,hchars⟩ := tag_cut (habstract hm _) (habstract hn _) hchars
  obtain ⟨hname,hchars⟩ :=
    Text.cut_before (hm.name.not_mem (by decide)) (hn.name.not_mem (by decide)) hchars
  obtain ⟨hparameters,hchars⟩ := Text.cut_before (hm.parameters_lack (by decide))
    (hn.parameters_lack (by decide)) hchars
  have hreturn := List.append_cancel_left hchars
  simp only [Method.face,MethodFace.mk.injEq]
  exact ⟨hvisibility,hs,ha,String.toList_inj.mp hname,String.toList_inj.mp hparameters,
    String.toList_inj.mp hreturn⟩

section Lines

def opening (line : String) : Option Char := line.toList.head?

theorem quoted_cut {a b : String} {u v : List Char} (ha : Lacks endsQuoted a)
    (hb : Lacks endsQuoted b)
    (h : (inQuotes a).toList ++ u = (inQuotes b).toList ++ v) : a = b ∧ u = v := by
  simp only [inQuotes,String.toList_append,List.append_assoc] at h
  have hchars := List.append_cancel_left h
  obtain ⟨hab,huv⟩ := Text.cut_before (ha.not_mem (by decide)) (hb.not_mem (by decide)) hchars
  exact ⟨String.toList_inj.mp hab,huv⟩

theorem header_toList (e : Entity) :
    (header e).toList =
      (wordOf e.kind ++ " ").toList ++ '"' :: (e.qualifiedName.toList ++ '"' :: " \x7b".toList) := by
  simp [header,inQuotes]

theorem header_inj {e f : Entity} (he : e.Plain) (hf : f.Plain) (h : header e = header f) :
    e.kind = f.kind ∧ e.qualifiedName = f.qualifiedName := by
  have hword : ∀ k : EntityKind, '"' ∉ (wordOf k ++ " ").toList := by
    intro k
    cases k <;> decide
  have hwords : ∀ k l : EntityKind, wordOf k ++ " " = wordOf l ++ " " → k = l := by
    intro k l
    cases k <;> cases l <;> decide
  have hchars := congrArg String.toList h
  rw [header_toList,header_toList] at hchars
  obtain ⟨hkind,hchars⟩ := Text.cut_before (hword _) (hword _) hchars
  obtain ⟨hname,_⟩ := Text.cut_before (he.qualifiedName.not_mem (by decide))
    (hf.qualifiedName.not_mem (by decide)) hchars
  exact ⟨hwords _ _ (String.toList_inj.mp hkind),String.toList_inj.mp hname⟩

theorem relationship_injective {r s : Relationship} (hr : r.Plain) (hs : s.Plain)
    (h : relationship r = relationship s) : r = s := by
  have hword : ∀ c : Connector, ' ' ∉ (wordOf c).toList := by
    intro c
    cases c <;> decide
  have hwords : ∀ c d : Connector, wordOf c = wordOf d → c = d := by
    intro c d
    cases c <;> cases d <;> decide
  have hchars := congrArg String.toList h
  simp only [relationship,String.toList_append,List.append_assoc] at hchars
  obtain ⟨hsource,hchars⟩ := quoted_cut hr.source hs.source hchars
  obtain ⟨hconnector,hchars⟩ := Text.cut_before (hword _) (hword _) (List.append_cancel_left hchars)
  have htarget : r.target = s.target := by
    refine (quoted_cut (u := []) (v := []) hr.target hs.target ?_).1
    simpa using hchars
  cases r
  cases s
  simp only [Relationship.mk.injEq]
  exact ⟨hwords _ _ (String.toList_inj.mp hconnector),hsource,htarget⟩

theorem opening_header (e : Entity) :
    opening (header e) ∈ [some 'c',some 'a',some 'i',some 'e',some 'r'] := by
  have hne : ∀ k : EntityKind, (wordOf k ++ " ").toList ≠ [] := by
    intro k
    cases k <;> decide
  rw [opening,header_toList,List.head?_append_of_ne_nil _ (hne _)]
  cases e.kind <;> decide

theorem opening_relationship (r : Relationship) : opening (relationship r) = some '"' := by
  simp [opening,relationship,inQuotes]

theorem opening_indented (text : String) : opening ("  " ++ text) = some ' ' := by
  simp [opening]

theorem field_lacks {f : Field} (h : f.Plain) {c : Char} (hc : endsType c = true) :
    c ∉ (field f).toList := by
  have hmarks : c = '\n' ∨ c = '(' ∨ c = ')' := by simpa [endsType,or_assoc] using hc
  have hglyph : c ∉ (glyph f.visibility).toList := by
    rcases hmarks with rfl | rfl | rfl <;> cases f.visibility <;> decide
  have htag : c ∉ (staticTag f.isStatic).toList := by
    rcases hmarks with rfl | rfl | rfl <;> cases f.isStatic <;> decide
  have hname : c ∉ f.name.toList := by
    rcases hmarks with rfl | rfl | rfl <;> exact h.name.not_mem (by decide)
  have hsuffix : c ∉ (typeSuffix f.type).toList := by
    have htype := h.type.not_mem hc
    rw [typeSuffix]
    split
    · simp
    · rcases hmarks with rfl | rfl | rfl <;> simp [htype]
  simp only [field_eq,String.toList_append,List.mem_append,not_or]
  exact ⟨⟨⟨hglyph,htag⟩,hname⟩,hsuffix⟩

theorem paren_mem_method (m : Method) : '(' ∈ (method m).toList := by
  rw [method_toList]
  simp

def fieldLine (f : Field) : String := "  " ++ field f

def methodLine (m : Method) : String := "  " ++ method m

def IsFieldLine (line : String) : Prop := opening line = some ' ' ∧ '(' ∉ line.toList

theorem fieldLine_isFieldLine {f : Field} (h : f.Plain) : IsFieldLine (fieldLine f) := by
  refine ⟨opening_indented _,?_⟩
  have hparen : '(' ∉ (field f).toList := field_lacks h (by decide)
  simpa [fieldLine] using hparen

-- Fields and methods stand in one block: the first line with a parenthesis is the first method.
theorem head_not_fieldLine (ms : List Method) (rest : List String) :
    ∀ l ∈ (ms.map methodLine ++ "\x7d" :: rest).head?, ¬ IsFieldLine l := by
  rintro l hl ⟨hopening,hparen⟩
  cases ms with
  | nil =>
    rw [List.map_nil,List.nil_append,List.head?_cons,Option.mem_some_iff] at hl
    subst hl
    exact absurd hopening (by decide)
  | cons m ms =>
    rw [List.map_cons,List.cons_append,List.head?_cons,Option.mem_some_iff] at hl
    subst hl
    exact hparen (by simp [methodLine,paren_mem_method])

theorem members_cut {fs gs : List Field} {ms ns : List Method} (hfs : ∀ f ∈ fs, f.Plain)
    (hgs : ∀ f ∈ gs, f.Plain) (hms : ∀ m ∈ ms, m.Plain) (hns : ∀ m ∈ ns, m.Plain) {u v : List String}
    (h : fs.map fieldLine ++ (ms.map methodLine ++ "\x7d" :: u) =
      gs.map fieldLine ++ (ns.map methodLine ++ "\x7d" :: v)) :
    fs = gs ∧ ms.map Method.face = ns.map Method.face ∧ u = v := by
  have hlines : ∀ {ks : List Field}, (∀ f ∈ ks, f.Plain) → ∀ l ∈ ks.map fieldLine, IsFieldLine l := by
    intro ks hks l hl
    obtain ⟨k,hk,rfl⟩ := List.mem_map.mp hl
    exact fieldLine_isFieldLine (hks k hk)
  have hindented : ∀ ks : List Method, ∀ l ∈ ks.map methodLine, opening l = some ' ' := by
    intro ks l hl
    obtain ⟨k,_,rfl⟩ := List.mem_map.mp hl
    exact opening_indented _
  have hclosing : ∀ w : List String, ∀ l ∈ ("\x7d" :: w).head?, ¬ opening l = some ' ' := by
    simp [opening]
  obtain ⟨hfields,h⟩ :=
    Text.cut_unique (hlines hfs) (hlines hgs) (head_not_fieldLine _ _) (head_not_fieldLine _ _) h
  obtain ⟨hmethods,h⟩ :=
    Text.cut_unique (hindented ms) (hindented ns) (hclosing u) (hclosing v) h
  refine ⟨?_,?_,List.tail_eq_of_cons_eq h⟩
  · have hid : fs.map id = gs.map id := by
      refine map_eq_map_of (fun f hf g hg hfg => ?_) hfields
      exact field_injective (hfs f hf) (hgs g hg) ((String.append_right_inj _).mp hfg)
    simpa using hid
  · refine map_eq_map_of (fun m hm n hn hmn => ?_) hmethods
    exact method_face (hms m hm) (hns n hn) ((String.append_right_inj _).mp hmn)

theorem entity_append (e : Entity) (rest : List String) :
    entity e ++ rest =
      header e :: (e.fields.map fieldLine ++ (e.methods.map methodLine ++ "\x7d" :: rest)) := by
  simp only [entity,List.cons_append,List.append_assoc,List.nil_append]
  rfl

theorem entity_cut {e f : Entity} (he : e.Plain) (hf : f.Plain) {u v : List String}
    (h : entity e ++ u = entity f ++ v) : e.face = f.face ∧ u = v := by
  rw [entity_append,entity_append,List.cons.injEq] at h
  obtain ⟨hheader,h⟩ := h
  obtain ⟨hkind,hname⟩ := header_inj he hf hheader
  obtain ⟨hfields,hmethods,hrest⟩ := members_cut he.fields hf.fields he.methods hf.methods h
  refine ⟨?_,hrest⟩
  rw [Entity.face,Entity.face,hkind,hname,hfields,hmethods]

theorem entities_cut {es fs : List Entity} (hes : ∀ e ∈ es, e.Plain) (hfs : ∀ e ∈ fs, e.Plain)
    {u v : List String} (hu : ∀ e, header e ∉ u.head?) (hv : ∀ e, header e ∉ v.head?)
    (h : es.flatMap entity ++ u = fs.flatMap entity ++ v) :
    es.map Entity.face = fs.map Entity.face ∧ u = v := by
  induction es generalizing fs with
  | nil =>
    cases fs with
    | nil => exact ⟨rfl,h⟩
    | cons f fs =>
      rw [List.flatMap_cons,List.append_assoc,entity_append] at h
      exact absurd (by rw [show u = _ from h]; simp) (hu f)
  | cons e es ih =>
    cases fs with
    | nil =>
      rw [List.flatMap_cons,List.append_assoc,entity_append] at h
      exact absurd (by rw [show v = _ from h.symm]; simp) (hv e)
    | cons f fs =>
      rw [List.flatMap_cons,List.flatMap_cons,List.append_assoc,List.append_assoc] at h
      obtain ⟨hface,hrest⟩ := entity_cut (hes e (by simp)) (hfs f (by simp)) h
      obtain ⟨hfaces,huv⟩ := ih (fun k hk => hes k (List.mem_cons_of_mem _ hk))
        (fun k hk => hfs k (List.mem_cons_of_mem _ hk)) hrest
      exact ⟨by rw [List.map_cons,List.map_cons,hface,hfaces],huv⟩

theorem titleLine_eq (title : Option String) :
    titleLine title = if title.getD "" = "" then [] else ["title " ++ title.getD ""] := by
  cases title <;> rfl

theorem titleLine_inj {t u : Option String} (h : titleLine t = titleLine u) :
    t.getD "" = u.getD "" := by
  rw [titleLine_eq,titleLine_eq] at h
  split at h <;> split at h <;> simp_all

theorem opening_titleLine (title : Option String) : ∀ l ∈ titleLine title, opening l = some 't' := by
  rw [titleLine_eq]
  split <;> simp [opening]

theorem lines_append (documents : List Document) (title : Option String) :
    lines documents title = "@startuml" :: (titleLine title ++
      ((documents.flatMap Document.types).flatMap entity ++
        ((uniqueRelationships documents).map relationship ++ ["@enduml"]))) := by
  simp [lines]

theorem head_after_entities (rs : List Relationship) :
    ∀ l ∈ (rs.map relationship ++ ["@enduml"]).head?, opening l = some '"' ∨ opening l = some '@' := by
  cases rs with
  | nil => simp [opening]
  | cons r rs => simp [opening_relationship]

theorem head_after_title (es : List Entity) (rs : List Relationship) :
    ∀ l ∈ (es.flatMap entity ++ (rs.map relationship ++ ["@enduml"])).head?,
      ¬ opening l = some 't' := by
  intro l hl ht
  cases es with
  | nil =>
    rcases head_after_entities rs l hl with h | h <;> simp [ht] at h
  | cons e es =>
    rw [List.flatMap_cons,List.append_assoc,entity_append,List.head?_cons,Option.mem_some_iff] at hl
    have hheader := opening_header e
    rw [hl,ht] at hheader
    simp at hheader

end Lines

section Text

theorem newline_header {e : Entity} (h : e.Plain) : '\n' ∉ (header e).toList := by
  have hword : ∀ k : EntityKind, '\n' ∉ (wordOf k ++ " ").toList := by
    intro k
    cases k <;> decide
  have hname : '\n' ∉ e.qualifiedName.toList := h.qualifiedName.not_mem (by decide)
  rw [header_toList,List.mem_append,not_or]
  exact ⟨hword _,by simp [hname]⟩

theorem newline_method {m : Method} (h : m.Plain) : '\n' ∉ (method m).toList := by
  have hglyph : '\n' ∉ (glyph m.visibility).toList := by cases m.visibility <;> decide
  have hstatic : '\n' ∉ (staticTag m.isStatic).toList := by cases m.isStatic <;> decide
  have habstract : '\n' ∉ (abstractTag m.isAbstract).toList := by cases m.isAbstract <;> decide
  have hname : '\n' ∉ m.name.toList := h.name.not_mem (by decide)
  have hparameters : '\n' ∉ (", ".intercalate m.parameters).toList := h.parameters_lack (by decide)
  have hreturn : '\n' ∉ m.returnType.toList := h.returnType.not_mem (by decide)
  rw [method_toList]
  simp only [List.mem_append,List.mem_cons,not_or]
  exact ⟨hglyph,hstatic,habstract,hname,by decide,hparameters,by decide,by decide,hreturn⟩

theorem newline_entity {e : Entity} (h : e.Plain) : ∀ l ∈ entity e, '\n' ∉ l.toList := by
  intro l hl
  rw [← List.append_nil (entity e),entity_append] at hl
  simp only [List.mem_cons,List.mem_append,List.mem_map,List.not_mem_nil,or_false] at hl
  rcases hl with rfl | ⟨f,hf,rfl⟩ | ⟨m,hm,rfl⟩ | rfl
  · exact newline_header h
  · have hline : '\n' ∉ (field f).toList := field_lacks (h.fields f hf) (by decide)
    simpa [fieldLine] using hline
  · simpa [methodLine] using newline_method (h.methods m hm)
  · decide

theorem newline_relationship {r : Relationship} (h : r.Plain) : '\n' ∉ (relationship r).toList := by
  have hword : '\n' ∉ (wordOf r.connector).toList := by cases r.connector <;> decide
  have hsource : '\n' ∉ r.source.toList := h.source.not_mem (by decide)
  have htarget : '\n' ∉ r.target.toList := h.target.not_mem (by decide)
  simp [relationship,inQuotes,hword,hsource,htarget]

variable {ds es : List Document} {t u : Option String}

theorem plain_types (h : ∀ d ∈ ds, d.Plain) : ∀ e ∈ ds.flatMap Document.types, e.Plain := by
  intro e he
  obtain ⟨d,hd,he⟩ := List.mem_flatMap.mp he
  exact (h d hd).types e he

theorem plain_relationships (h : ∀ d ∈ ds, d.Plain) : ∀ r ∈ uniqueRelationships ds, r.Plain := by
  intro r hr
  obtain ⟨d,hd,hr⟩ := List.mem_flatMap.mp ((mem_firstOccurrences _ _ _).mp hr).1
  exact (h d hd).relationships r hr

theorem newline_lines (hds : ∀ d ∈ ds, d.Plain) (ht : ∀ title ∈ t, '\n' ∉ title.toList) :
    ∀ l ∈ lines ds t, '\n' ∉ l.toList := by
  intro l hl
  rw [lines_append] at hl
  simp only [List.mem_cons,List.mem_append,List.mem_flatMap,List.mem_map,List.not_mem_nil,or_false]
    at hl
  rcases hl with rfl | htitle | ⟨e,he,hl⟩ | ⟨r,hr,rfl⟩ | rfl
  · decide
  · cases t with
    | none => simp [titleLine] at htitle
    | some title =>
      simp only [titleLine] at htitle
      split at htitle
      · cases htitle
      · rw [List.mem_singleton.mp htitle]
        simpa using ht title rfl
  · exact newline_entity (plain_types hds e (List.mem_flatMap.mpr he)) l hl
  · exact newline_relationship (plain_relationships hds r hr)
  · decide

theorem lines_inj (hds : ∀ d ∈ ds, d.Plain) (hes : ∀ d ∈ es, d.Plain) (h : lines ds t = lines es u) :
    t.getD "" = u.getD "" ∧
      (ds.flatMap Document.types).map Entity.face = (es.flatMap Document.types).map Entity.face ∧
      uniqueRelationships ds = uniqueRelationships es := by
  have hbody : ∀ (rs : List Relationship) (e : Entity),
      header e ∉ (rs.map relationship ++ ["@enduml"]).head? := by
    intro rs e hmem
    have hheader := opening_header e
    rcases head_after_entities rs _ hmem with ho | ho <;> simp [ho] at hheader
  rw [lines_append,lines_append] at h
  obtain ⟨htitle,h⟩ := Text.cut_unique (opening_titleLine t) (opening_titleLine u)
    (head_after_title _ _) (head_after_title _ _) (List.tail_eq_of_cons_eq h)
  obtain ⟨hfaces,h⟩ :=
    entities_cut (plain_types hds) (plain_types hes) (hbody _) (hbody _) h
  obtain ⟨hlinks,_⟩ := Text.cut_unique (p := fun l => opening l = some '"')
    (by simp [opening_relationship]) (by simp [opening_relationship]) (by simp [opening])
    (by simp [opening]) h
  have hid : (uniqueRelationships ds).map id = (uniqueRelationships es).map id := by
    refine map_eq_map_of (fun r hr s hs hrs => ?_) hlinks
    exact relationship_injective (plain_relationships hds r hr) (plain_relationships hes s hs) hrs
  exact ⟨titleLine_inj htitle,hfaces,by simpa using hid⟩

theorem lines_of_render (hds : ∀ d ∈ ds, d.Plain) (hes : ∀ d ∈ es, d.Plain)
    (ht : ∀ title ∈ t, '\n' ∉ title.toList) (hu : ∀ title ∈ u, '\n' ∉ title.toList)
    (h : render ds t = render es u) : lines ds t = lines es u := by
  have hsplit : ∀ {ks : List Document} {w : Option String}, (∀ l ∈ lines ks w, '\n' ∉ l.toList) →
      ((("\n".intercalate (lines ks w)).toList).splitOn '\n') = (lines ks w).map String.toList := by
    intro ks w hlines
    rw [String.toList_intercalate]
    refine List.splitOn_intercalate '\n' (by simpa using hlines) ?_
    simp [lines]
  have hjoined : "\n".intercalate (lines ds t) = "\n".intercalate (lines es u) :=
    (String.append_left_inj _).mp h
  have hpieces : (lines ds t).map String.toList = (lines es u).map String.toList := by
    rw [← hsplit (newline_lines hds ht),← hsplit (newline_lines hes hu),hjoined]
  exact List.map_injective_iff.mpr (fun _ _ hline => String.toList_inj.mp hline) hpieces

end Text

section Contents

def faceLine (m : MethodFace) : String :=
  "  " ++ (glyph m.visibility ++ staticTag m.isStatic ++ abstractTag m.isAbstract ++ m.name ++ "(" ++
    m.parameters ++ ") : " ++ m.returnType)

def faceBlock (e : EntityFace) : List String :=
  (wordOf e.kind ++ " " ++ inQuotes e.qualifiedName ++ " \x7b") :: e.fields.map fieldLine ++
    e.methods.map faceLine ++ ["\x7d"]

theorem entity_eq_faceBlock (e : Entity) : entity e = faceBlock e.face := by
  simp only [faceBlock,Entity.face,List.map_map]
  rfl

end Contents

theorem text_unambiguous {ds es : List Document} {t u : Option String} (hds : ∀ d ∈ ds, d.Plain)
    (hes : ∀ d ∈ es, d.Plain) (ht : ∀ title ∈ t, '\n' ∉ title.toList)
    (hu : ∀ title ∈ u, '\n' ∉ title.toList) :
    render ds t = render es u ↔
      t.getD "" = u.getD "" ∧
        (ds.flatMap Document.types).map Entity.face = (es.flatMap Document.types).map Entity.face ∧
        uniqueRelationships ds = uniqueRelationships es := by
  constructor
  · intro h
    exact lines_inj hds hes (lines_of_render hds hes ht hu h)
  · rintro ⟨htitle,hfaces,hlinks⟩
    have hblocks : ∀ ks : List Document, (ks.flatMap Document.types).flatMap entity =
        ((ks.flatMap Document.types).map Entity.face).flatMap faceBlock := by
      intro ks
      rw [List.flatMap_map]
      exact List.flatMap_congr fun e _ => entity_eq_faceBlock e
    rw [render,render,lines_append,lines_append,titleLine_eq,titleLine_eq,htitle,hblocks,hblocks,hfaces,
      hlinks]

def shapeWith (parameters : List String) : Entity :=
  { package := "p",kind := .abstractCls,name := "Shape<T>"
    fields := [⟨.prot,true,"int","count"⟩,⟨.pkg,false,"List<T>","items"⟩]
    methods := [⟨.pub,false,true,"double","area",[]⟩,⟨.priv,true,false,"Shape<T>","of",parameters⟩] }

def colour : Entity := { package := "",kind := .enum,name := "Colour",fields := [⟨.pub,true,"","RED"⟩] }

def shapeHoldsItems : Relationship := ⟨.composition,"p.List<T>","p.Shape<T>"⟩

def shapesApart : List Document :=
  [⟨[shapeWith ["T","int"]],[shapeHoldsItems,shapeHoldsItems]⟩,⟨[colour],[shapeHoldsItems]⟩]

def shapesTogether : List Document := [⟨[shapeWith ["T, int"],colour],[shapeHoldsItems]⟩]

theorem text_unambiguous_shapes :
    (∀ d ∈ shapesApart, d.Plain) ∧ (∀ d ∈ shapesTogether, d.Plain) ∧
    render shapesApart none = render shapesTogether (some "") ∧
    render shapesApart none ≠ render shapesTogether (some "Shapes") := by
  have hapart : ∀ d ∈ shapesApart, d.Plain := by decide
  have htogether : ∀ d ∈ shapesTogether, d.Plain := by decide
  refine ⟨hapart,htogether,?_,fun h => ?_⟩
  · exact (text_unambiguous hapart htogether (by simp) (by simp)).mpr ⟨rfl,by decide,by decide⟩
  · have htitle := ((text_unambiguous hapart htogether (by simp) (by simp)).mp h).1
    simp at htitle

end PlantUml

end ClassDiagram

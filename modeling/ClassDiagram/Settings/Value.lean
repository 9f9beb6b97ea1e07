import ClassDiagram.Settings.Decimal

/-!
Values that settings are given as, before it is checked that they are what a setting needs. A table keeps
its entries in the order in which they were first given. Laying one table over another keeps what only one
of them has, and joins tables that both have under one key.
-/

namespace ClassDiagram

inductive Value where
  | null
  | bool (b : Bool)
  | int (n : Int)
  | float (d : Double)
  | text (s : String)
  | moment
  | list (items : List Value)
  | table (entries : List (String × Value))
  deriving Repr

abbrev Table := List (String × Value)

namespace Table

def set (t : Table) (key : String) (v : Value) : Table :=
  match t with
  | [] => [(key, v)]
  | (k, old) :: rest => if k = key then (key, v) :: rest else (k, old) :: set rest key v

theorem lookup_set_self (t : Table) (key : String) (v : Value) :
    (set t key v).lookup key = some v := by
  induction t with
  | nil => simp [set]
  | cons e rest ih =>
      obtain ⟨k, old⟩ := e
      by_cases h : k = key
      · simp [set, h]
      · have : (key == k) = false := by simpa using fun e => h e.symm
        simp [set, h, List.lookup_cons, this, ih]

theorem lookup_set_of_ne (t : Table) {key other : String} (v : Value) (h : other ≠ key) :
    (set t key v).lookup other = t.lookup other := by
  induction t with
  | nil =>
      have : (other == key) = false := by simpa using h
      simp [set, List.lookup_cons, this]
  | cons e rest ih =>
      obtain ⟨k, old⟩ := e
      by_cases hk : k = key
      · have : (other == key) = false := by simpa using h
        simp [set, hk, List.lookup_cons, this]
      · by_cases ho : other = k
        · simp [set, hk, ho]
        · have : (other == k) = false := by simpa using ho
          simp [set, hk, List.lookup_cons, this, ih]

end Table

mutual

def Value.over (lower : Value) : Value → Value
  | .table upper =>
      match lower with
      | .table entries => .table (Table.over entries upper)
      | _ => .table upper
  | v => v

def Table.over (lower : Table) : List (String × Value) → Table
  | [] => lower
  | (key, v) :: upper =>
      Table.over (lower.set key (match lower.lookup key with
        | some old => Value.over old v
        | none => v)) upper

end

end ClassDiagram

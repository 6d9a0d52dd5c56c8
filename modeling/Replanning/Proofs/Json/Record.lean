import Mathlib
import Replanning.Json.Record
import Replanning.Proofs.Json.Token

/-! A reader is exact for a writer on some values if it gives these back and refuses what is written
for all others. A record is exact where its fields are. -/
namespace Replanning.Json

/-- The reader gives back what is written for a value that passes the test, and refuses what is
written for any other. -/
def Exact {α : Type} (read : Json → Option α) (write : α → Json) (kept : α → Bool) : Prop :=
  ∀ a, read (write a) = if kept a then some a else none

theorem Exact.eq_some_iff {α : Type} {read : Json → Option α} {write : α → Json} {kept : α → Bool}
    (h : Exact read write kept) (a : α) : read (write a) = some a ↔ kept a = true := by
  rw [h a]
  split_ifs with hkept
  · exact iff_of_true rfl hkept
  · exact iff_of_false nofun hkept

theorem natural_ofNat (n bound : ℕ) (h : n < bound) : (ofNat n).natural? bound = some n := by
  have hn : 0 ≤ (n : ℤ) ∧ (n : ℤ) < bound := ⟨Int.natCast_nonneg n, by exact_mod_cast h⟩
  rw [ofNat, natural?, if_pos hn, Int.toNat_natCast]

@[simp] theorem word64_ofNat (w : UInt64) : word64? (ofNat w.toNat) = some w := by
  rw [word64?, natural_ofNat _ _ w.toNat_lt]
  exact congrArg some UInt64.ofNat_toNat

@[simp] theorem word32_ofNat (w : UInt32) : word32? (ofNat w.toNat) = some w := by
  rw [word32?, natural_ofNat _ _ w.toNat_lt]
  exact congrArg some UInt32.ofNat_toNat

theorem exact_word64 : Exact word64? (fun w : UInt64 => ofNat w.toNat) fun _ => true :=
  word64_ofNat

theorem exact_word32 : Exact word32? (fun w : UInt32 => ofNat w.toNat) fun _ => true :=
  word32_ofNat

@[simp] theorem string_string (s : String) : string? (.string s) = some s :=
  rfl

@[simp] theorem bool_bool (b : Bool) : bool? (.bool b) = some b :=
  rfl

theorem exact_bool : Exact bool? .bool fun _ => true :=
  bool_bool

/-- A double that is no number is written as nothing, which is no double. -/
theorem exact_float : Exact float? ofFloat Float.isFinite := by
  intro x
  unfold ofFloat
  split_ifs
  · rfl
  · rfl

theorem exact_list {α : Type} {read : Json → Option α} {write : α → Json} {kept : α → Bool}
    (h : Exact read write kept) :
    Exact (list? read) (fun as => .array (as.map write)) fun as => as.all kept := by
  intro as
  change (as.map write).mapM read = if as.all kept then some as else none
  induction as with
  | nil => rfl
  | cons a as ih =>
    rw [List.map_cons, List.mapM_cons, ih, h a, List.all_cons]
    cases kept a
    · rfl
    · cases as.all kept <;> rfl

/-- A count is read back where it fits a word. -/
theorem exact_position : Exact position? ofNat fun n => n < UInt64.size := by
  intro n
  by_cases h : n < UInt64.size
  · rw [position?, natural_ofNat n _ h, if_pos (decide_eq_true h)]
  · have hn : ¬ (0 ≤ (n : ℤ) ∧ (n : ℤ) < UInt64.size) := fun hn => h (by exact_mod_cast hn.2)
    rw [position?, ofNat, natural?, if_neg hn, if_neg (mt of_decide_eq_true h)]

/-- A value that may be absent is read back where it is never written as nothing itself. -/
theorem exact_option {α : Type} {read : Json → Option α} {write : α → Json} {kept : α → Bool}
    (h : Exact read write kept) (hnull : ∀ a, write a ≠ .null) :
    Exact (optional? read) (ofOption write) fun o => o.all kept := by
  intro o
  cases o with
  | none => rfl
  | some a =>
    change optional? read (write a) = if kept a = true then some (some a) else none
    rw [optional?, h a]
    · split_ifs <;> rfl
    · exact hnull a

/-- An object with the names of a record, each once and in order, has all of its fields. -/
theorem fields_object (names : List String) (members : List (String × Json))
    (hnames : members.map Prod.fst = names) (hnodup : names.Nodup) :
    fields? names (.object members) = some ⟨false, members⟩ := by
  have hcount : names.all (fun name => members.countP (·.1 = name) ≤ 1) = true := by
    rw [List.all_eq_true]
    intro name _
    have h := List.nodup_iff_count_le_one.mp hnodup name
    rw [← hnames, List.count, List.countP_map] at h
    exact decide_eq_true h
  exact if_pos hcount

@[simp] theorem required_head {α : Type} (positional : Bool) (name : String) (v : Json)
    (rest : List (String × Json)) (read : Json → Option α) :
    Fields.required ⟨positional, (name, v) :: rest⟩ name read = read v := by
  simp only [Fields.required, List.lookup, BEq.rfl, Option.bind_some]

@[simp] theorem required_tail {α : Type} (positional : Bool) (name other : String) (v : Json)
    (rest : List (String × Json)) (read : Json → Option α) (h : name ≠ other) :
    Fields.required ⟨positional, (other, v) :: rest⟩ name read =
      Fields.required ⟨positional, rest⟩ name read := by
  simp only [Fields.required, List.lookup, beq_eq_false_iff_ne.mpr h]

/-- A double that may be absent is read back without what is no number. -/
@[simp] theorem optional_float (x : Option Float) :
    optional? float? (ofOption ofFloat x) = some (x.filter Float.isFinite) := by
  cases x with
  | none => rfl
  | some x =>
    rw [ofOption, ofFloat, Option.filter_some]
    split_ifs <;> rfl

@[simp] theorem optional_head {α : Type} (positional : Bool) (name : String) (v : Json)
    (rest : List (String × Json)) (read : Json → Option α) :
    Fields.optional ⟨positional, (name, v) :: rest⟩ name read = optional? read v := by
  simp only [Fields.optional, List.lookup, BEq.rfl]

@[simp] theorem optional_tail {α : Type} (positional : Bool) (name other : String) (v : Json)
    (rest : List (String × Json)) (read : Json → Option α) (h : name ≠ other) :
    Fields.optional ⟨positional, (other, v) :: rest⟩ name read =
      Fields.optional ⟨positional, rest⟩ name read := by
  simp only [Fields.optional, List.lookup, beq_eq_false_iff_ne.mpr h]

@[simp] theorem defaulted_head {α : Type} (positional : Bool) (name : String) (v : Json)
    (rest : List (String × Json)) (read : Json → Option α) (default : α) :
    Fields.defaulted ⟨positional, (name, v) :: rest⟩ name read default = read v := by
  simp only [Fields.defaulted, List.lookup, BEq.rfl]

@[simp] theorem defaulted_tail {α : Type} (positional : Bool) (name other : String) (v : Json)
    (rest : List (String × Json)) (read : Json → Option α) (default : α) (h : name ≠ other) :
    Fields.defaulted ⟨positional, (other, v) :: rest⟩ name read default =
      Fields.defaulted ⟨positional, rest⟩ name read default := by
  simp only [Fields.defaulted, List.lookup, beq_eq_false_iff_ne.mpr h]

/-- A value that can be held and contains no other. -/
def isScalar : Json → Bool
  | .array _ => false
  | .object _ => false
  | .unreadable => false
  | _ => true

@[simp] theorem isScalar_ofNat (n : ℕ) : isScalar (ofNat n) = true :=
  rfl

@[simp] theorem isScalar_string (s : String) : isScalar (.string s) = true :=
  rfl

@[simp] theorem isScalar_bool (b : Bool) : isScalar (.bool b) = true :=
  rfl

@[simp] theorem isScalar_ofFloat (x : Float) : isScalar (ofFloat x) = true := by
  unfold ofFloat
  split_ifs <;> rfl

@[simp] theorem isScalar_ofOption {α : Type} (write : α → Json)
    (h : ∀ a, isScalar (write a) = true) (o : Option α) : isScalar (ofOption write o) = true := by
  cases o with
  | none => rfl
  | some a => exact h a

theorem readable_of_isScalar (v : Json) (h : v.isScalar = true) (levels : ℕ) :
    v.readable levels = true := by
  cases v with
  | array items => cases h
  | object members => cases h
  | unreadable => cases h
  | _ => cases levels <;> rfl

theorem readableMembers_of_isScalar (members : List (String × Json))
    (h : ∀ m ∈ members, m.2.isScalar = true) (levels : ℕ) :
    readableMembers levels members = true := by
  induction members with
  | nil => rfl
  | cons m rest ih =>
    rw [readableMembers, readable_of_isScalar m.2 (h m List.mem_cons_self),
      ih fun m' hm => h m' (List.mem_cons_of_mem m hm), Bool.true_and]

/-- The tag in front of a flat record is taken off it, wherever the record stands. -/
theorem tagged_object (outer : ℕ) (tag name : String) (members : List (String × Json))
    (houter : outer < maxLevels) (hnames : ∀ m ∈ members, m.1 ≠ tag)
    (hflat : ∀ m ∈ members, m.2.isScalar = true) :
    tagged? outer tag (.object ((tag, .string name) :: members)) =
      some (name, .object members) := by
  have hread : (Json.object ((tag, .string name) :: members)).readable (maxLevels - outer) =
      true := by
    have hall := readableMembers_of_isScalar members hflat
    -- one level is left for the record, and none is needed inside it
    obtain ⟨levels, hlevels⟩ := Nat.exists_eq_succ_of_ne_zero (Nat.sub_ne_zero_of_lt houter)
    rw [hlevels, readable, readableMembers, hall, Bool.and_true]
    exact readable_of_isScalar _ rfl levels
  have htag : ((tag, Json.string name) :: members).filter (fun m => m.1 = tag) =
      [(tag, .string name)] := by
    rw [List.filter_cons_of_pos (by simp), List.filter_eq_nil_iff.mpr]
    intro m hm
    simpa using hnames m hm
  have hrest : ((tag, Json.string name) :: members).filter (fun m => m.1 ≠ tag) =
      members := by
    rw [List.filter_cons_of_neg (by simp), List.filter_eq_self]
    intro m hm
    simpa using hnames m hm
  rw [tagged?, hread]
  simp only [Bool.not_true, Bool.false_eq_true, ↓reduceIte, htag, hrest]

theorem writable_ofNat (n : ℕ) (h : n < UInt64.size) : writable (ofNat n) = true := by
  rw [ofNat, writable, fitsWord, Bool.and_eq_true, decide_eq_true_eq, decide_eq_true_eq]
  omega

@[simp] theorem writable_word64 (w : UInt64) : writable (ofNat w.toNat) = true :=
  writable_ofNat w.toNat w.toNat_lt

@[simp] theorem writable_word32 (w : UInt32) : writable (ofNat w.toNat) = true :=
  writable_ofNat w.toNat (w.toNat_lt.trans (by decide))

@[simp] theorem writable_string (s : String) : writable (.string s) = true :=
  rfl

@[simp] theorem writable_ofFloat (x : Float) : writable (ofFloat x) = true := by
  unfold ofFloat
  split_ifs with h
  · exact h
  · rfl

@[simp] theorem writable_bool (b : Bool) : writable (.bool b) = true :=
  rfl

@[simp] theorem writable_ofOption {α : Type} (write : α → Json) (o : Option α)
    (h : ∀ a ∈ o, writable (write a) = true) : writable (ofOption write o) = true := by
  cases o with
  | none => rfl
  | some a => exact h a rfl

@[simp] theorem writable_map {α : Type} (write : α → Json) (as : List α)
    (h : ∀ a ∈ as, writable (write a) = true) : writable (.array (as.map write)) = true := by
  rw [writable]
  induction as with
  | nil => rfl
  | cons a as ih =>
    rw [List.map_cons, writableItems, h a List.mem_cons_self,
      ih fun b hb => h b (List.mem_cons_of_mem a hb), Bool.true_and]

@[simp] theorem writable_object_nil : writable (.object []) = true :=
  rfl

@[simp] theorem writable_object_cons (name : String) (v : Json) (rest : List (String × Json)) :
    writable (.object ((name, v) :: rest)) = (writable v && writable (.object rest)) :=
  rfl

end Replanning.Json

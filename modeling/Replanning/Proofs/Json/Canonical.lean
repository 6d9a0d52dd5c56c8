import Replanning.Json.Canonical
import Replanning.Proofs.Json.Reader
import Replanning.Proofs.Json.Record
import Replanning.Proofs.Outcome

namespace Replanning.Json

/-- Where no name is repeated, every member is found under its own. -/
theorem lookup_of_mem (members : List (String × Json)) (hnodup : (members.map Prod.fst).Nodup)
    (m : String × Json) (hm : m ∈ members) : members.lookup m.1 = some m.2 := by
  induction members with
  | nil => exact absurd hm List.not_mem_nil
  | cons first rest ih =>
    obtain ⟨hfresh, hrest⟩ := List.nodup_cons.mp hnodup
    rcases List.mem_cons.mp hm with rfl | hm
    · exact List.lookup_cons_self
    · have hne : m.1 ≠ first.1 := fun h => hfresh (h ▸ List.mem_map_of_mem hm)
      rw [lookup_cons_ite, if_neg hne, ih hrest hm]

/-- A member in its place is found under its name, and all others are found as before. -/
theorem lookup_insertMember (placed : String) (v : Json) (members : List (String × Json))
    (name : String) : (insertMember placed v members).lookup name =
      if name = placed then some v else members.lookup name := by
  induction members with
  | nil => rw [insertMember, lookup_cons_ite]
  | cons m rest ih =>
    obtain ⟨other, w⟩ := m
    rw [insertMember]
    by_cases hbefore : placed < other
    · rw [if_pos hbefore, lookup_cons_ite]
    · rw [if_neg hbefore]
      by_cases hsame : placed = other
      · rw [if_pos hsame, lookup_cons_ite, lookup_cons_ite, hsame]
        split_ifs <;> rfl
      -- further down, where a name is at most one of the two
      · rw [if_neg hsame, lookup_cons_ite, ih, lookup_cons_ite]
        by_cases h : name = other
        · have hne : name ≠ placed := fun hname => hsame (hname.symm.trans h)
          rw [if_pos h, if_neg hne, if_pos h]
        · rw [if_neg h, if_neg h]

/-- Sorting keeps what is found under a name, in canonical form. -/
theorem lookup_sortedMembers (placed members : List (String × Json))
    (hnodup : (members.map Prod.fst).Nodup) (name : String) :
    (sortedMembers placed members).lookup name =
      ((members.lookup name).map sorted).or (placed.lookup name) := by
  induction members generalizing placed with
  | nil => rfl
  | cons m rest ih =>
    obtain ⟨other, v⟩ := m
    obtain ⟨hfresh, hrest⟩ := List.nodup_cons.mp hnodup
    rw [sortedMembers, ih _ hrest, lookup_insertMember, lookup_cons_ite]
    by_cases h : name = other
    · -- the name is not met again
      have hnone : rest.lookup name = none := by
        rw [List.lookup_eq_none_iff, h]
        intro m hm
        have hmem : m.1 ∈ rest.map Prod.fst := List.mem_map_of_mem hm
        exact bne_iff_ne.mpr fun hsame => hfresh (hsame ▸ hmem)
      rw [hnone, if_pos h, if_pos h]
      rfl
    · rw [if_neg h, if_neg h]

/-- Objects of one canonical form have the same under every name. -/
theorem lookup_of_sorted_eq (members members' : List (String × Json))
    (hnodup : (members.map Prod.fst).Nodup) (hnodup' : (members'.map Prod.fst).Nodup)
    (h : (object members).sorted = (object members').sorted) (name : String) :
    (members.lookup name).map sorted = (members'.lookup name).map sorted := by
  have hsorted := congrArg (List.lookup name) (Json.object.inj h)
  rw [lookup_sortedMembers _ _ hnodup, lookup_sortedMembers _ _ hnodup'] at hsorted
  rwa [List.lookup_nil, Option.or_none, Option.or_none] at hsorted

/-- Objects with the same names, each once, have the same canonical form only if their members have
the same canonical forms, one by one. -/
theorem sorted_object_inj (members members' : List (String × Json))
    (hnames : members.map Prod.fst = members'.map Prod.fst) (hnodup : (members.map Prod.fst).Nodup)
    (h : (object members).sorted = (object members').sorted) :
    members.map (fun m => m.2.sorted) = members'.map fun m => m.2.sorted := by
  have hfound (ms : List (String × Json)) (hms : (ms.map Prod.fst).Nodup) :
      ms.map (fun m => some m.2.sorted) =
        (ms.map Prod.fst).map fun name => (ms.lookup name).map sorted := by
    rw [List.map_map]
    apply List.map_congr_left
    intro m hm
    rw [Function.comp_apply, lookup_of_mem ms hms m hm, Option.map_some]
  have hnodup' := hnames ▸ hnodup
  have hall : members.map (fun m => some m.2.sorted) = members'.map fun m => some m.2.sorted := by
    rw [hfound members hnodup, hfound members' hnodup', hnames]
    exact List.map_congr_left fun name _ => lookup_of_sorted_eq _ _ hnodup hnodup' h name
  apply List.map_injective_iff.mpr (Option.some_injective Json)
  rwa [List.map_map, List.map_map]

theorem sorted_of_isScalar (v : Json) (h : v.isScalar = true) : v.sorted = v := by
  cases v with
  | array items => cases h
  | object members => cases h
  | _ => rfl

theorem writable_insertMember (placed : String) (v : Json) (members : List (String × Json))
    (hv : writable v = true) (h : writableMembers members = true) :
    writableMembers (insertMember placed v members) = true := by
  induction members with
  | nil => rw [insertMember, writableMembers, hv, h, Bool.and_self]
  | cons m rest ih =>
    obtain ⟨other, w⟩ := m
    obtain ⟨hw, hrest⟩ := Bool.and_eq_true_iff.mp h
    rw [insertMember]
    split_ifs
    · rw [writableMembers, hv, h, Bool.and_self]
    · rw [writableMembers, hv, hrest, Bool.and_self]
    · rw [writableMembers, hw, ih hrest, Bool.and_self]

mutual

/-- The canonical form of a value has a text if the value has one. -/
theorem writable_sorted (v : Json) (hv : writable v = true) : writable v.sorted = true := by
  match v with
  | .array items => exact writable_sortedItems items hv
  | .object members => exact writable_sortedMembers [] members rfl hv
  | .null => exact hv
  | .bool _ => exact hv
  | .integer _ => exact hv
  | .float _ => exact hv
  | .string _ => exact hv
  | .unreadable => exact hv

theorem writable_sortedItems (items : List Json) (h : writableItems items = true) :
    writableItems (sortedItems items) = true := by
  match items with
  | [] => exact h
  | v :: rest =>
    obtain ⟨hv, hrest⟩ := Bool.and_eq_true_iff.mp h
    rw [sortedItems, writableItems, writable_sorted v hv, writable_sortedItems rest hrest,
      Bool.and_self]

theorem writable_sortedMembers (placed members : List (String × Json))
    (hplaced : writableMembers placed = true) (h : writableMembers members = true) :
    writableMembers (sortedMembers placed members) = true := by
  match members with
  | [] => exact hplaced
  | (name, v) :: rest =>
    obtain ⟨hv, hrest⟩ := Bool.and_eq_true_iff.mp h
    have hnext := writable_insertMember name v.sorted placed (writable_sorted v hv) hplaced
    exact writable_sortedMembers _ rest hnext hrest

end

/-- The canonical text is read as the canonical form. -/
theorem read_canonical (v : Json) (hv : writable v = true) : read v.canonical = some v.sorted :=
  read_compact v.sorted (writable_sorted v hv)

/-- Values have the same canonical text exactly if they have the same canonical form. -/
theorem canonical_eq_iff (v w : Json) (hv : writable v = true) (hw : writable w = true) :
    v.canonical = w.canonical ↔ v.sorted = w.sorted := by
  constructor
  · intro h
    have hread := congrArg read h
    rw [read_canonical v hv, read_canonical w hw] at hread
    exact Option.some.inj hread
  · intro h
    rw [canonical, canonical, h]

/-- A reader that is exact for values without members tells their canonical forms apart. -/
theorem Exact.sorted_inj {α : Type} {read : Json → Option α} {write : α → Json} {kept : α → Bool}
    (hread : Exact read write kept) (hscalar : ∀ a, (write a).isScalar = true) (a b : α)
    (ha : kept a = true) (hb : kept b = true) (h : (write a).sorted = (write b).sorted) :
    a = b := by
  rw [sorted_of_isScalar _ (hscalar a), sorted_of_isScalar _ (hscalar b)] at h
  have hsome := (hread.eq_some_iff a).mpr ha
  rw [h, (hread.eq_some_iff b).mpr hb] at hsome
  exact (Option.some.inj hsome).symm

end Replanning.Json

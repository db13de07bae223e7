import LanguageServer.Proofs.Utf8
import LanguageServer.Table
/-!
# The order of tables

Setting and erasing keys leave a table in ascending order of its keys (`Ascending`), which is the
order of their bytes (`Ascending.bytes_lt`). An ascending table holds each key once, so its entries
are what look-up finds in it (`Ascending.mem_iff`).
-/

namespace LanguageServer.Table

variable {α : Type}

/-- The keys of a table go up from each entry to the next. -/
def Ascending (table : Table α) : Prop := table.Pairwise fun a b => a.1 < b.1

theorem mem_of_mem_insert {key : String} {value : α} {entry : String × α} {table : Table α}
    (h : entry ∈ insert key value table) : entry = (key, value) ∨ entry ∈ table := by
  induction table with
  | nil => exact .inl (List.mem_singleton.mp h)
  | cons head rest ih =>
    obtain ⟨k, v⟩ := head
    unfold insert at h
    split at h
    · rcases List.mem_cons.mp h with new | old
      · exact .inl new
      · exact .inr (List.mem_cons_of_mem _ old)
    · split at h
      · exact List.mem_cons.mp h
      · rcases List.mem_cons.mp h with first | later
        · exact .inr (first ▸ List.mem_cons_self)
        · exact (ih later).imp_right (List.mem_cons_of_mem _)

/-- It does not matter in which order two keys are set. -/
theorem insert_comm {a b : String} (different : a ≠ b) (v w : α) (table : Table α) :
    insert a v (insert b w table) = insert b w (insert a v table) := by
  induction table with
  | nil => grind [insert]
  | cons entry rest ih => grind [insert]

/-- A pair of a list can be set last if no pair behind it has its key. -/
theorem ofList_append_cons (front : List (String × α)) (entry : String × α)
    (back : List (String × α)) (fresh : ∀ other ∈ back, entry.1 ≠ other.1) :
    ofList (front ++ entry :: back) = insert entry.1 entry.2 (ofList (front ++ back)) := by
  simp only [ofList, List.foldl_append, List.foldl_cons]
  generalize front.foldl (fun table entry => insert entry.1 entry.2 table) [] = table
  induction back generalizing table with
  | nil => rfl
  | cons other rest ih =>
    obtain ⟨different, others⟩ := List.forall_mem_cons.mp fresh
    rw [List.foldl_cons, insert_comm different.symm, ih others, List.foldl_cons]

/-- Setting a key leaves the other entries as they are. -/
theorem filter_insert {p : String × α → Bool} {key : String}
    (excluded : ∀ value, p (key, value) = false) (value : α) (table : Table α) :
    (insert key value table).filter p = table.filter p := by
  induction table with
  | nil => simp [insert, excluded]
  | cons entry rest ih =>
    obtain ⟨k, v⟩ := entry
    unfold insert
    split
    · rename_i same
      subst same
      simp [excluded]
    · split
      · simp [excluded]
      · simp [List.filter_cons, ih]

theorem lookup_filter {p : String × α → Bool} {key : String}
    (kept : ∀ value, p (key, value) = true) (table : Table α) :
    lookup key (table.filter p) = lookup key table := by
  induction table with
  | nil => rfl
  | cons entry rest ih => grind [lookup]

theorem Ascending.insert {table : Table α} (h : Ascending table) (key : String) (value : α) :
    Ascending (Table.insert key value table) := by
  induction table with
  | nil => exact List.pairwise_singleton _ _
  | cons head rest ih =>
    obtain ⟨k, v⟩ := head
    obtain ⟨least, others⟩ := List.pairwise_cons.mp h
    unfold Table.insert
    split
    · rename_i same
      subst same
      exact List.pairwise_cons.mpr ⟨least, others⟩
    · rename_i different
      split
      · rename_i less
        refine List.pairwise_cons.mpr ⟨?_, h⟩
        intro entry member
        rcases List.mem_cons.mp member with rfl | later
        · exact less
        · exact String.lt_trans less (least entry later)
      · rename_i notLess
        refine List.pairwise_cons.mpr ⟨?_, ih others⟩
        intro entry member
        rcases mem_of_mem_insert member with rfl | old
        · exact Std.lt_of_le_of_ne (String.not_lt.mp notLess) (Ne.symm different)
        · exact least entry old

theorem Ascending.erase {table : Table α} (h : Ascending table) (key : String) :
    Ascending (Table.erase key table) :=
  List.Pairwise.filter _ h

/-- The entries of an ascending table are what look-up finds. -/
theorem Ascending.mem_iff {table : Table α} (h : Ascending table) {key : String} {value : α} :
    (key, value) ∈ table ↔ lookup key table = some value := by
  induction table with
  | nil => simp
  | cons head rest ih =>
    obtain ⟨k, v⟩ := head
    obtain ⟨least, others⟩ := List.pairwise_cons.mp h
    rw [List.mem_cons, lookup_cons]
    by_cases same : key = k
    · subst same
      have once : (key, value) ∉ rest :=
        fun member => String.lt_irrefl key (least (key, value) member)
      simp [once, eq_comm]
    · simp [same, ih others]

/-- Setting a key to the value that it has changes nothing. -/
theorem Ascending.insert_of_lookup {table : Table α} (h : Ascending table) {key : String}
    {value : α} (found : lookup key table = some value) : Table.insert key value table = table := by
  induction table with
  | nil => cases found
  | cons head rest ih =>
    obtain ⟨k, v⟩ := head
    obtain ⟨least, others⟩ := List.pairwise_cons.mp h
    rw [lookup_cons] at found
    unfold Table.insert
    by_cases same : key = k
    · rw [if_pos same] at found ⊢
      cases found
      rw [same]
    · rw [if_neg same] at found ⊢
      have later : k < key := least (key, value) (Ascending.mem_iff others |>.mpr found)
      rw [if_neg (String.lt_asymm later), ih others found]

theorem Ascending.nodup_keys {table : Table α} (h : Ascending table) : (keys table).Nodup := by
  refine List.pairwise_map.mpr (List.Pairwise.imp ?_ h)
  intro a b less same
  exact String.lt_irrefl a.1 (same ▸ less)

/-- Ascending keys are ascending byte strings. -/
theorem Ascending.bytes_lt {table : Table α} (h : Ascending table) :
    table.Pairwise fun a b => Utf8.encode a.1.toList < Utf8.encode b.1.toList :=
  List.Pairwise.imp Utf8.encode_lt_encode h

end LanguageServer.Table

import LanguageServer.Catalog
import Mathlib.Data.List.Nodup
import Mathlib.Data.List.Pairwise
/-!
# The catalog

The catalog lists no word twice (`nodup_keywords`), so the order in which it is searched does not
matter: a word has the category and the documentation that it is listed with
(`ofKeyword?_eq_some_iff`, `documentation?_eq_some_iff`).
-/

namespace LanguageServer

/-- Of elements that no two fulfil a condition, the one that does is found. -/
theorem find?_eq_some_iff_of_unique {α : Type} {p : α → Bool} {list : List α} {x : α}
    (unique : ∀ y ∈ list, ∀ z ∈ list, p y = true → p z = true → y = z) :
    list.find? p = some x ↔ x ∈ list ∧ p x = true := by
  constructor
  · exact fun found => ⟨List.mem_of_find?_eq_some found, List.find?_some found⟩
  · rintro ⟨member, holds⟩
    cases found : list.find? p with
    | none => exact absurd holds (List.find?_eq_none.mp found x member)
    | some y =>
      rw [unique y (List.mem_of_find?_eq_some found) x member (List.find?_some found) holds]

namespace Category

theorem mem_all (category : Category) : category ∈ all := by
  cases category <;> decide

theorem name_injective {category other : Category} (same : category.name = other.name) :
    category = other := by
  revert same
  cases category <;> cases other <;> decide

/-- The catalog lists no word twice. -/
theorem nodup_keywords : (all.flatMap keywords).Nodup := by decide +kernel

theorem eq_of_mem_keywords {category other : Category} {word : String}
    (listed : word ∈ category.keywords) (again : word ∈ other.keywords) : category = other := by
  have apart : all.Pairwise (Function.onFun List.Disjoint keywords) :=
    (List.nodup_flatMap.mp nodup_keywords).2
  have symmetric : Std.Symm (Function.onFun List.Disjoint keywords) :=
    ⟨fun _ _ disjoint _ member other => disjoint other member⟩
  by_contra different
  exact apart.forall category.mem_all other.mem_all different listed again

theorem ofName?_eq_some_iff {name : String} {category : Category} :
    ofName? name = some category ↔ name = category.name := by
  rw [ofName?, find?_eq_some_iff_of_unique]
  · simp [mem_all, eq_comm]
  · intro one _ other _ named again
    exact name_injective ((of_decide_eq_true named).trans (of_decide_eq_true again).symm)

/-- A word has the category that lists it. -/
theorem ofKeyword?_eq_some_iff {word : String} {category : Category} :
    ofKeyword? word = some category ↔ word ∈ category.keywords := by
  rw [ofKeyword?, find?_eq_some_iff_of_unique]
  · simp [mem_all]
  · intro one _ other _ listed again
    exact eq_of_mem_keywords (of_decide_eq_true listed) (of_decide_eq_true again)

end Category

/-- A word has the documentation that it is listed with. -/
theorem Keyword.documentation?_eq_some_iff {word text : String} :
    documentation? word = some text ↔
      ∃ category : Category, (⟨word, text⟩ : Keyword) ∈ category.entries := by
  have distinct : ((Category.all.flatMap Category.entries).map Keyword.name).Nodup := by
    rw [List.map_flatMap]
    exact Category.nodup_keywords
  have found (entry : Keyword) :
      (Category.all.flatMap Category.entries).find? (fun entry => entry.name = word) = some entry ↔
        (∃ category : Category, entry ∈ category.entries) ∧ entry.name = word := by
    rw [find?_eq_some_iff_of_unique]
    · simp [Category.mem_all]
    · intro one listed other again named same
      exact List.inj_on_of_nodup_map distinct listed again
        ((of_decide_eq_true named).trans (of_decide_eq_true same).symm)
  rw [documentation?, Option.map_eq_some_iff]
  constructor
  · rintro ⟨entry, searched, rfl⟩
    obtain ⟨listed, rfl⟩ := (found entry).mp searched
    exact listed
  · intro listed
    exact ⟨⟨word, text⟩, (found _).mpr ⟨listed, rfl⟩, rfl⟩

end LanguageServer

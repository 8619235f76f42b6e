import QadsCafe.L2Detail.Session

/-!
# Malformed menu documents

`populateItem` reads a menu document with conditional casts, but casts
"options" and "types" as a whole, so one entry that is no map drops them all;
`createOrderItem` then casts each entry by force, and `getImageRef` unwraps
the name. A price is malformed if it is no number, or an integer that no
Double holds exactly. `handles_iff` says which documents get through: those
without a malformed entry, or whose malformed entries drop nothing.
-/
namespace QadsCafe

open Core

/-- The entries of the map under `key`. -/
def entries (doc : Dict Value) (key : String) : Dict Value :=
  ((doc.lookup key).bind Value.asMap).getD []

/-- The option of a well-formed entry of "options". -/
def optionOf (entry : String × Value) : Option ItemOption := entry.2.asMap.bind makeOption

/-- The entry of "types" is a map with a well-formed choice in it. -/
def HasChoice (entry : String × Value) : Prop :=
  ∃ m, entry.2.asMap = some m ∧ ∃ choice ∈ m, (makeChoice choice).isSome

/-- The type of an entry of "types", with each well-formed choice once. -/
def ReadsType (entry : String × Value) (t : ItemType) : Prop :=
  ∃ m, entry.2.asMap = some m ∧ t.name = entry.1 ∧
    Reads (fun choice => (makeChoice choice).isSome) (fun choice o => makeChoice choice = some o) m
      t.choices

/-- The document can be decoded, opened and its image reference computed. Each
well-formed option and choice is in the order item once. -/
def Handles (id : String) (doc : Dict Value) (allergyNames : List String) : Prop :=
  ∃ x ref, createOrderItem (Item.populateItem id doc) allergyNames = some x ∧
    (Item.populateItem id doc).getImageRef = some ref ∧
    Reads (fun entry => (optionOf entry).isSome) (fun entry o => optionOf entry = some o)
      (entries doc "options") x.options ∧
    Reads HasChoice ReadsType (entries doc "types") x.types

/-- What a document has to satisfy. -/
structure GetsThrough (doc : Dict Value) : Prop where
  name : ((doc.lookup "name").bind Value.asString).isSome
  options : (∀ e ∈ entries doc "options", (optionOf e).isSome) ∨
    (∃ e ∈ entries doc "options", e.2.asMap = none) ∧
      ∀ e ∈ entries doc "options", ¬ (optionOf e).isSome
  types : (∀ e ∈ entries doc "types", ∃ m, e.2.asMap = some m ∧
      ∀ choice ∈ m, (makeChoice choice).isSome) ∨
    (∃ e ∈ entries doc "types", e.2.asMap = none) ∧ ∀ e ∈ entries doc "types", ¬ HasChoice e

/-- The cast of one entry in `as? [String: [String: Any]]`. -/
def castMap (e : String × Value) : Option (String × Dict Value) := e.2.asMap.map fun d => (e.1, d)

theorem asMaps_entries (doc : Dict Value) (key : String) :
    ((doc.lookup key).bind Value.asMaps).getD [] = ((entries doc key).mapM castMap).getD [] := by
  unfold entries
  cases doc.lookup key with
  | none => rfl
  | some v => cases v <;> rfl

theorem castMap_eq_none {e : String × Value} : castMap e = none ↔ e.2.asMap = none :=
  Option.map_eq_none_iff

theorem castMap_bind {γ : Type} (e : String × Value) (build : String × Dict Value → Option γ) :
    (castMap e).bind build = e.2.asMap.bind fun m => build (e.1, m) := by
  unfold castMap
  cases e.2.asMap <;> rfl

theorem makeType_isSome (name : String) (m : Dict Value) :
    (makeType (name, m)).isSome ↔ ∀ choice ∈ m, (makeChoice choice).isSome := by
  rw [makeType, Option.isSome_map, mapM_isSome_iff]

theorem makeType_reads {e : String × Value} {m : Dict Value} (hm : e.2.asMap = some m) {t : ItemType}
    (ht : makeType (e.1, m) = some t) : ReadsType e t := by
  obtain ⟨choices, hc, rfl⟩ := Option.map_eq_some_iff.mp ht
  exact ⟨m, hm, rfl, reads_of_mapM hc fun _ _ _ h => h⟩

theorem options_iff (doc : Dict Value) :
    (∃ l, (((entries doc "options").mapM castMap).getD []).mapM (fun e => makeOption e.2) = some l ∧
      Reads (fun e => (optionOf e).isSome) (fun e o => optionOf e = some o) (entries doc "options") l) ↔
      (∀ e ∈ entries doc "options", (optionOf e).isSome) ∨
        (∃ e ∈ entries doc "options", e.2.asMap = none) ∧
          ∀ e ∈ entries doc "options", ¬ (optionOf e).isSome := by
  rw [strict_reads_iff fun e _ c hc o ho => ?_]
  · simp only [castMap_bind, castMap_eq_none]
    rfl
  · obtain ⟨m, hm, rfl⟩ := Option.map_eq_some_iff.mp hc
    rw [optionOf, hm]
    exact ho

theorem types_iff (doc : Dict Value) :
    (∃ l, (((entries doc "types").mapM castMap).getD []).mapM makeType = some l ∧
      Reads HasChoice ReadsType (entries doc "types") l) ↔
      (∀ e ∈ entries doc "types", ∃ m, e.2.asMap = some m ∧
          ∀ choice ∈ m, (makeChoice choice).isSome) ∨
        (∃ e ∈ entries doc "types", e.2.asMap = none) ∧
          ∀ e ∈ entries doc "types", ¬ HasChoice e := by
  rw [strict_reads_iff fun e _ c hc t ht => ?_]
  · have hall : ∀ e : String × Value, ((castMap e).bind makeType).isSome ↔
        ∃ m, e.2.asMap = some m ∧ ∀ choice ∈ m, (makeChoice choice).isSome := by
      intro e
      rw [castMap_bind]
      cases e.2.asMap with
      | none => simp
      | some m => simp only [Option.bind_some, makeType_isSome, Option.some.injEq, exists_eq_left']
    simp only [hall, castMap_eq_none]
  · obtain ⟨m, hm, rfl⟩ := Option.map_eq_some_iff.mp hc
    exact makeType_reads hm ht

theorem exists_createOrderItem {item : Item} {options : List ItemOption} {types : List ItemType}
    (ho : (item.options.getD []).mapM (fun e => makeOption e.2) = some options)
    (ht : (item.types.getD []).mapM makeType = some types) (names : List String) :
    ∃ x, createOrderItem item names = some x ∧ x.options = options ∧ x.types = types := by
  simp only [createOrderItem, ho, ht, Option.bind_eq_bind, Option.bind_some]
  exact ⟨_, rfl, rfl, rfl⟩

theorem getImageRef_populateItem (id : String) (doc : Dict Value) :
    (∃ ref, (Item.populateItem id doc).getImageRef = some ref) ↔
      ((doc.lookup "name").bind Value.asString).isSome := by
  simp only [Item.getImageRef, Item.populateItem, reduceCtorEq, if_false]
  cases (doc.lookup "name").bind Value.asString <;> simp

/-- **Malformed documents.** A document gets through, with every well-formed
option and choice in the order item once, iff its name is a string and in
"options" and in "types" there is no malformed entry, or an entry is no map
and there is nothing well-formed that is dropped with it. -/
theorem handles_iff (id : String) (doc : Dict Value) (allergyNames : List String) :
    Handles id doc allergyNames ↔ GetsThrough doc := by
  have hoptions : (Item.populateItem id doc).options.getD [] =
      ((entries doc "options").mapM castMap).getD [] := asMaps_entries doc "options"
  have htypes : (Item.populateItem id doc).types.getD [] =
      ((entries doc "types").mapM castMap).getD [] := asMaps_entries doc "types"
  constructor
  · rintro ⟨x, ref, hx, href, ho, ht⟩
    have hc := createOrderItem_created hx
    refine ⟨(getImageRef_populateItem id doc).mp ⟨ref, href⟩, (options_iff doc).mp ⟨x.options, ?_, ho⟩,
      (types_iff doc).mp ⟨x.types, ?_, ht⟩⟩
    · rw [← hoptions]; exact hc.options
    · rw [← htypes]; exact hc.types
  · rintro ⟨hn, ho, ht⟩
    obtain ⟨ref, href⟩ := (getImageRef_populateItem id doc).mpr hn
    obtain ⟨options, hol, hor⟩ := (options_iff doc).mpr ho
    obtain ⟨types, htl, htr⟩ := (types_iff doc).mpr ht
    rw [← hoptions] at hol
    rw [← htypes] at htl
    obtain ⟨x, hx, rfl, rfl⟩ := exists_createOrderItem hol htl allergyNames
    exact ⟨x, ref, hx, href, hor, htr⟩

/-- An option without a price, one whose price is an integer that no Double
holds, a nameless item, and a good option beside an entry that is no map. -/
def priceless : Dict Value :=
  [("name", .string "Latte"), ("options", .map [("syrup", .map [("name", .string "Syrup"),
    ("can_have_multiple", .bool false)])])]

def inexact : Dict Value :=
  [("name", .string "Latte"), ("options", .map [("syrup", .map [("name", .string "Syrup"),
    ("can_have_multiple", .bool false), ("extra_price", .integer 9007199254740993)])])]

def nameless : Dict Value := [("price", .integer 2)]

def oneBadEntry : Dict Value :=
  [("name", .string "Latte"), ("options", .map [("syrup", .map [("name", .string "Syrup"),
    ("can_have_multiple", .bool false), ("extra_price", .integer 1)]), ("cream", .string "Cream")])]

/-- **Malformed documents crash the app, or drop good options.** -/
theorem malformed_not_handled :
    createOrderItem (Item.populateItem "latte" priceless) [] = none ∧
    createOrderItem (Item.populateItem "latte" inexact) [] = none ∧
    (Item.populateItem "latte" nameless).getImageRef = none ∧
    (createOrderItem (Item.populateItem "latte" oneBadEntry) []).map (·.options) = some [] ∧
    ¬ Handles "latte" priceless [] ∧ ¬ Handles "latte" inexact [] ∧ ¬ Handles "latte" nameless [] ∧
    ¬ Handles "latte" oneBadEntry [] := by
  have h₁ : createOrderItem (Item.populateItem "latte" priceless) [] = none := rfl
  have h₂ : createOrderItem (Item.populateItem "latte" inexact) [] = none := rfl
  have h₃ : (Item.populateItem "latte" nameless).getImageRef = none := rfl
  refine ⟨h₁, h₂, h₃, rfl, ?_, ?_, ?_, ?_⟩
  · rintro ⟨x, ref, hx, -⟩
    rw [h₁] at hx
    cases hx
  · rintro ⟨x, ref, hx, -⟩
    rw [h₂] at hx
    cases hx
  · rintro ⟨x, ref, -, href, -⟩
    rw [h₃] at href
    cases href
  · rintro ⟨x, ref, hx, -, ho, -⟩
    cases hx
    exact reads_nil_iff.mp ho _ List.mem_cons_self rfl

end QadsCafe

import QadsCafe.Core.Dictionary
import QadsCafe.Core.LTS
import QadsCafe.L1Menu.Item

/-!
# The list behind an items screen

`ItemsViewController` owns one `itemList`: the IDs of the documents in the
order they arrived, and a dictionary from an ID to its item. Its rows are the
IDs; a row is drawn, and opened, by looking its ID up again, with a forced
unwrap on both lookups.

`itemsScreen menuitems location category` is one such screen with a query in
flight that fails or brings the documents of the collection.

Results:
* `lookup_rows`: whatever documents have arrived, with IDs that repeat or not,
  every row has an item, the one of its last document, under its own ID.
* `rows_of_menu`: in every state of a screen no lookup of a row traps, and the
  rows are the items of the menu in order, or none.
-/
namespace QadsCafe

open Core

/-- mirrors Helpers/Item.swift:12-14 -/
structure ItemList where
  itemDictionary : Finmap fun _ : String => Item := ∅
  itemArray : List String := []

/-- The documents that the query of a menu returns.
mirrors Helpers/Item.swift:22 -/
def menuQuery (menuitems : Dict (Dict Value)) (location category : String) : Dict (Dict Value) :=
  menuitems.filter fun d => Value.fieldIn d.2 "location" [location, "both"] &&
    Value.fieldIn d.2 "category" [category]

namespace ItemList

/-- mirrors Helpers/Item.swift:29-36 -/
def insert (l : ItemList) (document : String × Dict Value) : ItemList where
  itemDictionary := l.itemDictionary.insert document.1 (Item.populateItem document.1 document.2)
  itemArray := l.itemArray ++ [document.1]

/-- The callback of the query; `none` is an error.
mirrors Helpers/Item.swift:24-38 -/
def loaded (l : ItemList) : Option (Dict (Dict Value)) → ItemList
  | none => l
  | some documents => documents.foldl insert l

/-- mirrors ItemsViewController.swift:50-52 -/
def numberOfItemsInSection (l : ItemList) : Nat := l.itemArray.length

/-- `itemDictionary![itemArray![row]]!`, as the cell of a row is made and as the
row is opened; `none` is a trap.
mirrors ItemsViewController.swift:61 and 82 -/
def itemAt (l : ItemList) (row : Nat) : Option Item := do
  let id ← l.itemArray[row]?
  l.itemDictionary.lookup id

end ItemList

/-- The items that the screen draws, row by row. -/
def ItemList.rows (l : ItemList) : List (Option Item) :=
  (List.range l.numberOfItemsInSection).map l.itemAt

/-- mirrors ItemsViewController.swift:16-18 -/
structure ItemsScreen where
  location : String
  category : String
  itemList : ItemList := {}
  /-- the query of `viewDidLoad` has not been answered -/
  loading : Bool := true

/-- The query is answered; `ok` is false for an error.
mirrors ItemsViewController.swift:33-35 -/
def ItemsScreen.reply (menuitems : Dict (Dict Value)) (s : ItemsScreen) (ok : Bool) :
    Option ItemsScreen :=
  if s.loading then
    let documents := if ok then some (menuQuery menuitems s.location s.category) else none
    some { s with itemList := s.itemList.loaded documents, loading := false }
  else none

def itemsScreen (menuitems : Dict (Dict Value)) (location category : String) : LTS ItemsScreen Bool :=
  LTS.ofFn (· = { location, category }) (ItemsScreen.reply menuitems)

namespace ItemList

/-! ## Lookups -/

/-- The item a document becomes. -/
def populated (d : String × Dict Value) : Item := Item.populateItem d.1 d.2

/-- What a list holds that came from `docs`. -/
structure Holds (l : ItemList) (docs : Dict (Dict Value)) : Prop where
  array : l.itemArray = docs.map Prod.fst
  lookup : ∀ id, l.itemDictionary.lookup id = (lastKeyed Prod.fst docs id).map populated

theorem holds_empty : Holds {} [] := ⟨rfl, fun _ => Finmap.lookup_empty _⟩

theorem Holds.insert {l : ItemList} {docs : Dict (Dict Value)} (h : Holds l docs)
    (d : String × Dict Value) : Holds (l.insert d) (docs ++ [d]) := by
  refine ⟨?_, fun id => ?_⟩
  · simp only [ItemList.insert, h.array, List.map_append, List.map_cons, List.map_nil]
  · simp only [ItemList.insert, lastKeyed_append, lastKeyed, Option.none_or]
    by_cases hid : d.1 = id
    · subst hid
      rw [Finmap.lookup_insert, if_pos rfl, Option.some_or]
      rfl
    · rw [Finmap.lookup_insert_of_ne _ (Ne.symm hid), h.lookup, if_neg hid, Option.none_or]

theorem Holds.foldl {docs : Dict (Dict Value)} (more : Dict (Dict Value)) :
    ∀ {l : ItemList}, Holds l docs → Holds (more.foldl ItemList.insert l) (docs ++ more) := by
  induction more generalizing docs with
  | nil => intro l h; simpa using h
  | cons d more ih =>
    intro l h
    have hstep := ih (h.insert d)
    rwa [List.append_assoc] at hstep

theorem Holds.loaded {l : ItemList} {docs : Dict (Dict Value)} (h : Holds l docs)
    (r : Option (Dict (Dict Value))) : Holds (l.loaded r) (docs ++ r.getD []) := by
  cases r with
  | none =>
    rw [Option.getD_none, List.append_nil]
    exact h
  | some more => exact h.foldl more

theorem Holds.itemAt {l : ItemList} {docs : Dict (Dict Value)} (h : Holds l docs) (row : Nat) :
    l.itemAt row = docs[row]?.bind fun d => (lastKeyed Prod.fst docs d.1).map populated := by
  unfold ItemList.itemAt
  rw [h.array, List.getElem?_map]
  cases docs[row]? with
  | none => rfl
  | some d => exact h.lookup d.1

/-- A row that has an ID finds its last document. -/
theorem Holds.itemAt_none {l : ItemList} {docs : Dict (Dict Value)} (h : Holds l docs) (row : Nat) :
    l.itemAt row = none ↔ ¬ row < l.numberOfItemsInSection := by
  rw [h.itemAt, numberOfItemsInSection, h.array, List.length_map]
  cases hd : docs[row]? with
  | none =>
    rw [List.getElem?_eq_none_iff] at hd
    exact iff_of_true rfl (by omega)
  | some d =>
    have hfound : (lastKeyed Prod.fst docs d.1).isSome := by
      rw [lastKeyed_isSome]
      exact List.mem_map_of_mem (List.mem_of_getElem? hd)
    obtain ⟨e, he⟩ := Option.isSome_iff_exists.mp hfound
    refine iff_of_false ?_ (not_not.mpr (List.getElem?_eq_some_iff.mp hd).1)
    simp [he]

/-- With distinct IDs the rows are the documents in order. -/
theorem Holds.itemAt_nodup {l : ItemList} {docs : Dict (Dict Value)} (h : Holds l docs)
    (hn : (docs.map Prod.fst).Nodup) (row : Nat) : l.itemAt row = (docs.map populated)[row]? := by
  rw [h.itemAt, List.getElem?_map]
  cases hd : docs[row]? with
  | none => rfl
  | some d => simp only [Option.bind_some, lastKeyed_eq hn (List.mem_of_getElem? hd), Option.map_some]

theorem Holds.rows {l : ItemList} {docs : Dict (Dict Value)} (h : Holds l docs)
    (hn : (docs.map Prod.fst).Nodup) : l.rows = (docs.map populated).map some := by
  apply List.ext_getElem?
  intro row
  unfold ItemList.rows
  rw [List.getElem?_map, List.getElem?_map, ← h.itemAt_nodup hn]
  by_cases hrow : row < l.numberOfItemsInSection
  · obtain ⟨item, hitem⟩ := Option.ne_none_iff_exists'.mp (mt (h.itemAt_none row).mp (not_not.mpr hrow))
    rw [List.getElem?_range hrow, Option.map_some, hitem, Option.map_some]
  · rw [(h.itemAt_none row).mpr hrow, List.getElem?_eq_none (by simpa using hrow)]
    rfl

theorem Holds.replies {docs : Dict (Dict Value)} (replies : List (Option (Dict (Dict Value)))) :
    ∀ {l : ItemList}, Holds l docs →
      Holds (replies.foldl ItemList.loaded l) (docs ++ replies.flatMap (·.getD [])) := by
  induction replies generalizing docs with
  | nil => intro l h; simpa using h
  | cons r replies ih =>
    intro l h
    have hstep := ih (h.loaded r)
    rwa [List.append_assoc] at hstep

/-- **Rows.** After any answers to any number of queries, in a fresh list, the
lookups of a row trap iff the row is not on screen; else they give the item of
the last document that has the row's ID. -/
theorem lookup_rows (replies : List (Option (Dict (Dict Value)))) (row : Nat) :
    let docs := replies.flatMap (·.getD [])
    let l := replies.foldl ItemList.loaded {}
    l.itemArray = docs.map Prod.fst ∧
      (l.itemAt row = none ↔ ¬ row < l.numberOfItemsInSection) ∧
      ∀ item, l.itemAt row = some item → ∃ l₁ d l₂, docs = l₁ ++ d :: l₂ ∧
        l.itemArray[row]? = some d.1 ∧ d.1 ∉ l₂.map Prod.fst ∧ item = populated d := by
  intro docs l
  have h : Holds l docs := holds_empty.replies replies
  refine ⟨h.array, h.itemAt_none row, fun item hitem => ?_⟩
  · rw [h.itemAt] at hitem
    obtain ⟨d, hd, hlast⟩ := Option.bind_eq_some_iff.mp hitem
    obtain ⟨e, he, rfl⟩ := Option.map_eq_some_iff.mp hlast
    obtain ⟨l₁, l₂, hsplit, hid, hn⟩ := lastKeyed_split Prod.fst he
    refine ⟨l₁, e, l₂, hsplit, ?_, by rw [hid]; exact hn, rfl⟩
    rw [h.array, List.getElem?_map, hd, hid]
    rfl

end ItemList

/-! ## One screen -/

theorem loadItemsFor_eq (menuitems : Dict (Dict Value)) (location category : String) :
    loadItemsFor menuitems location category =
      (menuQuery menuitems location category).map ItemList.populated := rfl

theorem menuQuery_nodup {menuitems : Dict (Dict Value)} (h : (menuitems.map Prod.fst).Nodup)
    (location category : String) :
    ((menuQuery menuitems location category).map Prod.fst).Nodup :=
  h.sublist (List.filter_sublist.map Prod.fst)

namespace ItemsScreen

/-- What a screen shows at any time. -/
structure Sound (menuitems : Dict (Dict Value)) (location category : String) (s : ItemsScreen) :
    Prop where
  place : s.location = location ∧ s.category = category
  fresh : s.loading = true → s.itemList = {}
  list : s.itemList = {} ∨ s.itemList.Holds (menuQuery menuitems location category)

variable {menuitems : Dict (Dict Value)} {location category : String}

theorem Sound.reply {s t : ItemsScreen} {ok : Bool} (h : Sound menuitems location category s)
    (hs : s.reply menuitems ok = some t) : Sound menuitems location category t := by
  unfold ItemsScreen.reply at hs
  split at hs
  · rename_i hl
    obtain ⟨rfl, rfl⟩ := h.place
    cases hs
    refine ⟨⟨rfl, rfl⟩, fun h => Bool.noConfusion h, ?_⟩
    rw [h.fresh hl]
    cases ok with
    | false => exact .inl rfl
    | true => exact .inr (ItemList.holds_empty.loaded (some _))
  · cases hs

theorem sound_reachable {s : ItemsScreen} (h : (itemsScreen menuitems location category).Reachable s) :
    Sound menuitems location category s := by
  refine h.invariant (I := Sound menuitems location category) ?_ fun s ok t _ hi hs => hi.reply hs
  rintro s rfl
  exact ⟨⟨rfl, rfl⟩, fun _ => rfl, .inl rfl⟩

/-- The item of a row is one of the menu's. -/
theorem Sound.itemAt_mem {s : ItemsScreen} (h : Sound menuitems location category s) {row : Nat}
    {item : Item} (hitem : s.itemList.itemAt row = some item) :
    item ∈ loadItemsFor menuitems location category := by
  rcases h.list with hl | hl
  · rw [hl] at hitem; cases hitem
  · rw [hl.itemAt] at hitem
    obtain ⟨d, -, hlast⟩ := Option.bind_eq_some_iff.mp hitem
    obtain ⟨e, he, rfl⟩ := Option.map_eq_some_iff.mp hlast
    obtain ⟨l₁, l₂, hsplit, -, -⟩ := lastKeyed_split Prod.fst he
    rw [loadItemsFor_eq, hsplit]
    exact List.mem_map_of_mem (List.mem_append_right _ List.mem_cons_self)

theorem Sound.itemAt_none {s : ItemsScreen} (h : Sound menuitems location category s) (row : Nat) :
    s.itemList.itemAt row = none ↔ ¬ row < s.itemList.numberOfItemsInSection := by
  rcases h.list with hl | hl
  · rw [hl]
    exact iff_of_true rfl (Nat.not_lt_zero row)
  · exact hl.itemAt_none row

/-- **The rows of a screen.** Document IDs are distinct. The rows are the items
of the menu in order once the query is answered without an error, and there are
none before and after an error; no lookup of a row traps. -/
theorem rows_of_menu (hn : (menuitems.map Prod.fst).Nodup) {s t : ItemsScreen} {ok : Bool}
    (h : (itemsScreen menuitems location category).Reachable s)
    (ht : s.reply menuitems ok = some t) :
    s.itemList.rows = [] ∧
      t.itemList.rows = if ok then (loadItemsFor menuitems location category).map some else [] := by
  have hs := sound_reachable h
  unfold ItemsScreen.reply at ht
  split at ht
  · rename_i hl
    obtain ⟨rfl, rfl⟩ := hs.place
    cases ht
    rw [hs.fresh hl]
    refine ⟨rfl, ?_⟩
    cases ok with
    | false => rfl
    | true =>
      have hloaded := (ItemList.holds_empty.loaded (some (menuQuery menuitems s.location s.category))).rows
        (menuQuery_nodup hn _ _)
      rw [loadItemsFor_eq]
      exact hloaded
  · cases ht

end ItemsScreen

end QadsCafe

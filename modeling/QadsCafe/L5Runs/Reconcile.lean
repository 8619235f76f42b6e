import QadsCafe.L3Order.Encoding
import QadsCafe.L5Runs.Totals

/-!
# Reconciling a document with the menu

The price of a document can be checked against the menu: each unit costs the
base price of its ID and, for each option it lists, that option's extra price
times the listed quantity (`priceUnit`).

The basket prices an item by all its options and types, the encoder lists the
options by name. So a document falls short by what it does not list: the
choices made in types, and options that a later one of the same name replaced
(`missing`). Where these sum to 0 the document reconciles, and only there
(`reconciles_iff`).
-/
namespace QadsCafe

open Core

/-! ## Pricing a unit from the menu -/

def menuItem (menuitems : Dict (Dict Value)) (id : Option String) : Option Item :=
  id.bind fun id => (menuitems.lookup id).map (Item.populateItem id)

/-- The options of a menu item that can be read. -/
def menuOptions (item : Item) : List ItemOption :=
  (item.options.getD []).filterMap fun entry => makeOption entry.2

/-- The extra price of a listed option; of several of one name, the listed one
is the last. -/
def extraPriceOf (item : Item) (name : String) : ℚ :=
  ((lastKeyed ItemOption.name (menuOptions item) name).map (·.extraPrice)).getD 0

def listedExtras (item : Item) (options : OptionsDic) : ℚ :=
  ∑ name ∈ options.keys,
    extraPriceOf item name * (((options.lookup name).map fun o => (o.quantity : ℚ)).getD 0)

def priceUnit (menuitems : Dict (Dict Value)) (unit : ItemDic) : ℚ :=
  match menuItem menuitems unit.id with
  | some item => item.price.getD 0 + listedExtras item unit.options
  | none => 0

def priceUnits (menuitems : Dict (Dict Value)) (items : List ItemDic) : ℚ :=
  (items.map (priceUnit menuitems)).sum

def Reconciles (menuitems : Dict (Dict Value)) (doc : OrderDoc) : Prop :=
  priceUnits menuitems doc.items = doc.price

/-- What the document of an item does not list. -/
def missing (x : OrderItem) : ℚ :=
  (extras (shadowed ItemOption.name x.options) + (x.types.map fun t => extras t.choices).sum) * x.quantity

/-- All prices of the menu item are whole pence. -/
structure PenceItem (item : Item) : Prop where
  base : IsPence (item.price.getD 0)
  options : ∀ o ∈ menuOptions item, IsPence o.extraPrice
  choices : ∀ typ ∈ item.types.getD [], ∀ choice ∈ typ.2, ∀ q, choice.2.asDouble = some q → IsPence q

/-- A collection: its document IDs are distinct. The prices are whole pence. -/
structure PenceMenu (menuitems : Dict (Dict Value)) : Prop where
  ids : (menuitems.map Prod.fst).Nodup
  items : ∀ d ∈ menuitems, PenceItem (Item.populateItem d.1 d.2)

theorem PenceItem.wholePence {item : Item} {names : List String} {x₀ : OrderItem}
    (h : PenceItem item) (h₀ : createOrderItem item names = some x₀) : WholePence x₀ := by
  have hc := createOrderItem_created h₀
  refine ⟨?_, fun q hq => ?_, fun q hq => ?_⟩
  · rw [hc.refItem]; exact h.base
  · obtain ⟨o, ho, rfl⟩ := List.mem_map.mp hq
    apply h.options
    unfold menuOptions
    rw [filterMap_of_mapM hc.options]; exact ho
  · obtain ⟨t, ht, hq⟩ := List.mem_flatMap.mp hq
    obtain ⟨o, ho, rfl⟩ := List.mem_map.mp hq
    have hall : ∀ t ∈ x₀.types, ∀ o ∈ t.choices, IsPence o.extraPrice := by
      refine forall_of_mapM hc.types fun typ htyp t ht => ?_
      simp only [makeType, Option.map_eq_some_iff] at ht
      obtain ⟨choices, hch, rfl⟩ := ht
      refine forall_of_mapM hch fun choice hchoice o ho => ?_
      simp only [makeChoice, Option.map_eq_some_iff] at ho
      obtain ⟨q, hq, rfl⟩ := ho
      exact h.choices typ htyp choice hchoice q hq
    exact hall t ht o ho

theorem lookup_of_nodup {α : Type} {l : Dict α} (h : (l.map Prod.fst).Nodup) {d : String × α}
    (hd : d ∈ l) : l.lookup d.1 = some d.2 := by
  induction l with
  | nil => cases hd
  | cons e l ih =>
    rw [List.map_cons, List.nodup_cons] at h
    rw [List.lookup_cons]
    rcases List.mem_cons.mp hd with rfl | hd
    · simp
    · have hne : ¬ d.1 = e.1 := fun he => h.1 (he ▸ List.mem_map_of_mem hd)
      simp only [beq_eq_false_iff_ne.mpr hne]
      exact ih h.2 hd

/-! ## One item -/

/-- A chosen item can be looked up, and its price is fresh. -/
theorem Chosen.priced {menuitems : Dict (Dict Value)} {x : OrderItem} (hm : PenceMenu menuitems)
    (h : Chosen menuitems x) :
    ∃ item names x₀, createOrderItem item names = some x₀ ∧ SameMenu x₀ { x with tag := x₀.tag } ∧
      menuItem menuitems x.itemID = some item ∧ Fresh x := by
  obtain ⟨category, names, item, y, hitem, hy, hx⟩ := h
  obtain ⟨x₀, h₀⟩ := hy.exists_init
  have hsame := sameMenu_reachable h₀ hy
  have hc := createOrderItem_created h₀
  simp only [loadItemsFor, List.mem_map, List.mem_filter] at hitem
  obtain ⟨d, ⟨hd, -⟩, rfl⟩ := hitem
  have hid : x.itemID = some d.1 := by
    rw [hx]
    show y.itemID = _
    rw [hsame.itemID, hc.itemID]; rfl
  have hfresh : Fresh y := fresh_reachable h₀ ((hm.items d hd).wholePence h₀) hy
  refine ⟨_, names, x₀, h₀, ?_, ?_, ?_⟩
  · rw [hx]
    exact ⟨hsame.refItem, hsame.itemID, hsame.itemName, hsame.location, rfl, hsame.options,
      hsame.types, hsame.allergies⟩
  · rw [hid, menuItem, Option.bind_some, lookup_of_nodup hm.ids hd]; rfl
  · rw [hx]; exact hfresh

theorem extraPriceOf_eq {item : Item} {names : List String} {x₀ x : OrderItem}
    (h₀ : createOrderItem item names = some x₀)
    (hb : x.options.map ItemOption.blank = x₀.options.map ItemOption.blank) {o : ItemOption}
    (ho : o ∈ lastEntries ItemOption.name x.options) : extraPriceOf item o.name = o.extraPrice := by
  have hopt : menuOptions item = x₀.options :=
    filterMap_of_mapM (createOrderItem_created h₀).options
  have hlast := lastKeyed_of_mem_lastEntries ItemOption.name ho
  -- the two lists differ in quantities only
  have hmap : (lastKeyed ItemOption.name x₀.options o.name).map ItemOption.blank = some o.blank := by
    have h1 := lastKeyed_map ItemOption.name ItemOption.blank x.options o.name
    have h2 := lastKeyed_map ItemOption.name ItemOption.blank x₀.options o.name
    rw [hb] at h1
    calc (lastKeyed ItemOption.name x₀.options o.name).map ItemOption.blank
        = lastKeyed ItemOption.name (x₀.options.map ItemOption.blank) o.name := h2.symm
      _ = (lastKeyed ItemOption.name x.options o.name).map ItemOption.blank := h1
      _ = some o.blank := by rw [hlast]; rfl
  obtain ⟨p, hp, hpo⟩ := Option.map_eq_some_iff.mp hmap
  have hextra : p.blank.extraPrice = o.blank.extraPrice := congrArg ItemOption.extraPrice hpo
  rw [extraPriceOf, hopt, hp, Option.map_some, Option.getD_some]
  exact hextra

theorem listedExtras_eq {item : Item} {names : List String} {x₀ x : OrderItem}
    (h₀ : createOrderItem item names = some x₀)
    (hb : x.options.map ItemOption.blank = x₀.options.map ItemOption.blank) :
    listedExtras item (optionsDic x.options) = extras (lastEntries ItemOption.name x.options) := by
  rw [listedExtras, optionsDic_eq, sum_keys, extras]
  congr 1
  apply List.map_congr_left
  intro o ho
  have hlast := lastKeyed_of_mem_lastEntries ItemOption.name ho
  simp only [lookup_dict, hlast, Option.map_some, Option.getD_some, extraPriceOf_eq h₀ hb ho]

/-- **One item.** Its units and what they do not list make up its price. -/
theorem priceUnits_add_missing {menuitems : Dict (Dict Value)} {x : OrderItem}
    (hm : PenceMenu menuitems) (h : Chosen menuitems x) :
    priceUnits menuitems (units x) + missing x = x.price := by
  obtain ⟨item, names, x₀, h₀, hsame, hitem, hfresh⟩ := h.priced hm
  have hq := h.quantity.1
  have hbase : x.refItem.price = item.price := by
    have hr : x.refItem = x₀.refItem := hsame.refItem
    rw [hr, (createOrderItem_created h₀).refItem]
  have hunit : priceUnit menuitems (itemDic x) =
      item.price.getD 0 + extras (lastEntries ItemOption.name x.options) := by
    have hb : x.options.map ItemOption.blank = x₀.options.map ItemOption.blank := hsame.options
    simp only [priceUnit, itemDic, hitem, listedExtras_eq h₀ hb]
  have hsplit : extras x.options = extras (lastEntries ItemOption.name x.options) +
      extras (shadowed ItemOption.name x.options) := sum_entries _ _ x.options
  have hcast : ((x.quantity.toNat : ℕ) : ℚ) = x.quantity := by
    have : ((x.quantity.toNat : ℤ) : ℚ) = x.quantity := by rw [Int.toNat_of_nonneg (by omega)]
    exact_mod_cast this
  have hprice : x.price = x.unitPrice * x.quantity := hfresh
  rw [hprice, OrderItem.unitPrice, hbase, hsplit, priceUnits, units, List.map_replicate,
    List.sum_replicate, hunit, nsmul_eq_mul, hcast, missing]
  ring

/-! ## A basket -/

theorem priceUnits_flatMap {menuitems : Dict (Dict Value)} (hm : PenceMenu menuitems)
    {l : List OrderItem} (h : ∀ x ∈ l, Chosen menuitems x) :
    priceUnits menuitems (l.flatMap units) + (l.map missing).sum = prices l := by
  induction l with
  | nil => simp [priceUnits, prices]
  | cons x l ih =>
    have hx := priceUnits_add_missing hm (h x List.mem_cons_self)
    have hl := ih fun y hy => h y (List.mem_cons_of_mem _ hy)
    simp only [priceUnits, prices, List.flatMap_cons, List.map_append, List.sum_append,
      List.map_cons, List.sum_cons] at hx hl ⊢
    rw [← hx, ← hl]
    ring

theorem reconciles_docOf {menuitems : Dict (Dict Value)} (hm : PenceMenu menuitems) {o : Order}
    (h : ∀ x ∈ o.items, Chosen menuitems x) (hp : o.price = prices o.items)
    (crsid : Option String) :
    Reconciles menuitems (docOf crsid o) ↔ (o.items.map missing).sum = 0 := by
  have hsum := priceUnits_flatMap hm h
  have hdoc : Reconciles menuitems (docOf crsid o) ↔
      priceUnits menuitems (o.items.flatMap units) = prices o.items := by
    rw [← hp]; rfl
  rw [hdoc]
  constructor
  · intro he; linarith
  · intro he; linarith

namespace App

/-- **Reconciliation.** In every run that adds finished sessions on items of a
menu in whole pence, the document of a basket, and every document ever sent,
reconciles with the menu exactly if what it does not list sums to 0. -/
theorem reconciles_iff {menuitems : Dict (Dict Value)} (hm : PenceMenu menuitems) {s : App}
    (h : (app.when (FromMenu menuitems)).Reachable s) :
    (∀ b crsid, ∃ doc o, (s.order b).makeDataDictionary crsid = some (doc, o) ∧
      (Reconciles menuitems doc ↔ ((s.order b).items.map missing).sum = 0)) ∧
    ∀ c, .issued c ∈ s.log → ∀ w, c.write? = some w →
      (Reconciles menuitems w.data ↔ (w.built.map missing).sum = 0) := by
  have hchosen := chosen_reachable h
  have hsummed := summed_reachable h.of_when
  refine ⟨fun b crsid => ?_, fun c hc w hw => ?_⟩
  · have he := encodable_of_chosen (hchosen.order b)
    exact ⟨_, _, makeDataDictionary_eq crsid _ he,
      reconciles_docOf hm (hchosen.order b) (hsummed.order b) crsid⟩
  · obtain ⟨crsid, o, ho, hi, hd⟩ := hchosen.issued c hc w hw
    obtain ⟨-, hprice⟩ := (total_of_issued hsummed hc hw)
    have hp : o.price = prices o.items := by
      rw [hi, ← hprice, hd]; rfl
    rw [hd, ← hi]
    exact reconciles_docOf hm ho hp crsid

/-- A menu whose one item comes in two sizes. -/
def latteMenu : Dict (Dict Value) :=
  [("latte", [("name", .string "Latte"), ("location", .string "Cafe"), ("category", .string "hot"),
    ("price", .double (5 / 2)), ("types", .map [("Size", .map [("Small", .integer 0),
      ("Large", .double (1 / 2))])])])]

/-- The latte as its session starts, and with the large size tapped. -/
def smallLatte : OrderItem :=
  ((loadItemsFor latteMenu "Cafe" "hot").head?.bind fun item => createOrderItem item []).getD {}

def largeLatte : OrderItem := (edit smallLatte (.tapRow {} 2 1)).getD {}

def buyLatte (x : OrderItem) : List Ev := signUp ++ [addToBasketTapped x, .checkout fun _ => 0]

theorem chosen_smallLatte : Chosen latteMenu smallLatte :=
  ⟨"hot", [], _, _, List.mem_singleton.mpr rfl, .init rfl, rfl⟩

theorem chosen_largeLatte : Chosen latteMenu largeLatte := by
  refine ⟨"hot", [], _, _, List.mem_singleton.mpr rfl, .step (l := .tapRow {} 2 1) (.init rfl) ⟨?_, rfl⟩, rfl⟩
  exact ⟨_, rfl, by decide⟩

theorem fromMenu_buyLatte {x : OrderItem} (hx : Chosen latteMenu x) :
    ∀ e ∈ buyLatte x, ∀ s, FromMenu latteMenu s e := by
  intro e he s b y hadd
  subst hadd
  simp only [buyLatte, signUp, addToBasketTapped, List.cons_append, List.nil_append, List.mem_cons,
    reduceCtorEq, List.not_mem_nil, or_false, false_or, Ev.addItem.injEq] at he
  obtain ⟨rfl, rfl⟩ := he
  exact ⟨hx, rfl⟩

theorem penceMenu_latteMenu : PenceMenu latteMenu := by
  refine ⟨by decide, fun d hd => ?_⟩
  obtain rfl := List.mem_singleton.mp hd
  have hbase : IsPence (5 / 2) := ⟨250, by norm_num⟩
  refine ⟨hbase, fun o ho => ?_, ?_⟩
  · cases ho
  · intro typ htyp choice hchoice q hq
    obtain rfl := List.mem_singleton.mp htyp
    simp only [List.mem_cons, List.not_mem_nil, or_false] at hchoice
    rcases hchoice with rfl | rfl <;> cases hq
    · exact IsPence.zero
    · exact ⟨50, by norm_num⟩

/-- Without a choice the document reconciles. -/
theorem smallLatte_reconciles :
    ∃ s doc o, (app.when (FromMenu latteMenu)).Reachable s ∧
      (s.order .cafe).makeDataDictionary s.user.crsid = some (doc, o) ∧ Reconciles latteMenu doc := by
  have hrun : app.Run {} (buyLatte smallLatte) _ := LTS.run_of_exec rfl
  have hr := (hrun.when (fromMenu_buyLatte chosen_smallLatte)).reachable launch_default
  obtain ⟨doc, o, hdoc, hiff⟩ := (reconciles_iff penceMenu_latteMenu hr).1 .cafe _
  exact ⟨_, doc, o, hr, hdoc, hiff.mpr (by decide +kernel)⟩

/-- **The price of a choice is charged but not listed.** -/
theorem choice_not_reconciled :
    ∃ s doc o, (app.when (FromMenu latteMenu)).Reachable s ∧
      (s.order .cafe).makeDataDictionary s.user.crsid = some (doc, o) ∧ ¬ Reconciles latteMenu doc := by
  have hrun : app.Run {} (buyLatte largeLatte) _ := LTS.run_of_exec rfl
  have hr := (hrun.when (fromMenu_buyLatte chosen_largeLatte)).reachable launch_default
  refine ⟨_, _, _, hr, rfl, ?_⟩
  unfold Reconciles
  decide +kernel

end App

end QadsCafe

import QadsCafe.Core.Decimal
import QadsCafe.L1Menu.Allergens
import QadsCafe.L2Detail.Taps

/-!
# What the item-detail screen shows

The texts and check boxes that the cells make from the order item: a row of
the options or of a type (`makeOptionCell`), a row of the allergy picker
(`makeAllergyCell`), the list of chosen allergies (`setChosenAllergies`) and
the checkout cell (`setUp`). Swift's `String(format: "%.2f", price)` is
`fixed 2`.

A check box only tells 0 from another quantity, an amount is shown to two
decimals and the chosen allergies are run together with commas. Still
`screen_faithful`: with prices in whole pence and names that the label can
hold apart, two states of the sessions on an item look alike only if they are
the same.
-/
namespace QadsCafe

open Core

/-- A row has a check box, or the count beside its stepper. -/
inductive Mark where
  | checkBox (isSelected : Bool)
  | quantityCount (text : String)
  deriving DecidableEq

structure OptionCell where
  nameLabel : String
  priceLabel : String
  mark : Mark
  deriving DecidableEq

/-- mirrors OptionTableViewCell.swift:49-60 -/
def makeOptionCell (o : ItemOption) : OptionCell where
  nameLabel := o.name
  priceLabel := "+ £" ++ fixed 2 o.extraPrice
  mark :=
    if o.canHaveMultiple then .quantityCount (toString o.quantity)
    else .checkBox (decide (o.quantity ≠ 0))

structure AllergyCell where
  nameLabel : String
  isSelected : Bool
  deriving DecidableEq

/-- mirrors OptionTableViewCell.swift:62-67 -/
def makeAllergyCell (a : Allergy) : AllergyCell := ⟨a.name, a.isChosen⟩

structure CheckoutCell where
  quantityLabel : String
  priceLabel : String
  errorLabel : Bool
  deriving DecidableEq

/-- `stock` is the item's.
mirrors CheckoutCollectionViewCell.swift:22-37 and ItemDetailsViewController.swift:115 -/
def OrderItem.setUp (stock : Option Bool) (x : OrderItem) : CheckoutCell where
  quantityLabel := toString x.quantity
  priceLabel := "£" ++ fixed 2 x.price
  errorLabel := !stock.getD false

/-- One turn of the loop: the text so far and `noneFound`.
mirrors AllergensCollectionViewCell.swift:28-33 -/
def appendChosen (s : String × Bool) (a : Allergy) : String × Bool :=
  if a.isChosen then (s.1 ++ (a.name ++ ", "), false) else s

/-- mirrors AllergensCollectionViewCell.swift:25-39 -/
def OrderItem.setChosenAllergies (P : Prepend) (x : OrderItem) : String :=
  let s := x.allergies.foldl appendChosen ("Chosen Allergies: ", true)
  if s.2 then "No Allergies Added" else dropLastCharacter P (dropLastCharacter P s.1)

/-! ## The chosen allergies -/

def OrderItem.chosen (x : OrderItem) : List String := (x.allergies.filter (·.isChosen)).map (·.name)

theorem foldl_appendChosen (l : List Allergy) : ∀ s : String × Bool,
    (l.foldl appendChosen s).1.toList = s.1.toList ++ commas ((l.filter (·.isChosen)).map (·.name)) ∧
      (l.foldl appendChosen s).2 = (s.2 && (l.filter (·.isChosen)).isEmpty) := by
  induction l with
  | nil => intro s; simp [commas]
  | cons a l ih =>
    intro s
    rw [List.foldl_cons]
    obtain ⟨htext, hnone⟩ := ih (appendChosen s a)
    rw [htext, hnone]
    unfold appendChosen
    cases ha : a.isChosen with
    | false => simp [ha]
    | true => simp [ha, commas, String.toList_append]

/-- A name the label can tell apart. -/
def Legible (P : Prepend) (a : String) : Prop := ',' ∉ a.toList ∧ ¬ EndsInPrepend P a

/-- What stands before a name ends in a blank. -/
theorem blank_before (l : List String) :
    ∃ pre, "Chosen Allergies: ".toList ++ commas l = pre ++ [' '] := by
  rcases List.eq_nil_or_concat' l with rfl | ⟨l, a, rfl⟩
  · exact ⟨"Chosen Allergies:".toList, rfl⟩
  · exact ⟨"Chosen Allergies: ".toList ++ commas l ++ a.toList ++ [','], by simp [commas]⟩

/-- With the comma and the blank put back the label lists the chosen names. -/
theorem toList_setChosenAllergies {P : Prepend} {x : OrderItem} (hne : x.chosen ≠ [])
    (h : ∀ a ∈ x.chosen, Legible P a) :
    (x.setChosenAllergies P).toList ++ ", ".toList =
      "Chosen Allergies: ".toList ++ commas x.chosen := by
  obtain ⟨htext, hnone⟩ := foldl_appendChosen x.allergies ("Chosen Allergies: ", true)
  have hfound : (x.allergies.foldl appendChosen ("Chosen Allergies: ", true)).2 = false := by
    rw [hnone]
    have hfilter : x.allergies.filter (·.isChosen) ≠ [] := fun he => hne (by rw [OrderItem.chosen, he]; rfl)
    simpa using hfilter
  obtain ⟨l, a, hla⟩ : ∃ l a, x.chosen = l ++ [a] := by
    rcases List.eq_nil_or_concat' x.chosen with he | he
    · exact absurd he hne
    · exact he
  have hsplit : "Chosen Allergies: ".toList ++ commas x.chosen =
      ("Chosen Allergies: ".toList ++ commas l ++ a.toList) ++ ", ".toList := by
    rw [hla]
    simp [commas]
  have hkeep : ("Chosen Allergies: ".toList ++ commas l ++ a.toList).rdropWhile P.mem =
      "Chosen Allergies: ".toList ++ commas l ++ a.toList := by
    refine rdropWhile_eq_self fun c hc => ?_
    rcases List.eq_nil_or_concat' a.toList with ha | ⟨pre, y, ha⟩
    · obtain ⟨pre, hpre⟩ := blank_before l
      rw [ha, List.append_nil, hpre, List.getLast?_concat, Option.some.injEq] at hc
      exact hc ▸ P.ascii ' ' (by decide)
    · rw [ha, ← List.append_assoc, List.getLast?_concat, Option.some.injEq] at hc
      subst hc
      rw [← Bool.not_eq_true]
      have hlegible := h a (by rw [hla]; simp)
      exact fun hp => hlegible.2 ⟨y, by rw [ha, List.getLast?_concat], hp⟩
  unfold OrderItem.setChosenAllergies
  simp only [hfound, Bool.false_eq_true, if_false]
  rw [dropLast_comma P (htext.trans hsplit), hkeep, hsplit]

theorem setChosenAllergies_none {P : Prepend} {x : OrderItem} (h : x.chosen = []) :
    x.setChosenAllergies P = "No Allergies Added" := by
  have hnone := (foldl_appendChosen x.allergies ("Chosen Allergies: ", true)).2
  have hfilter : x.allergies.filter (·.isChosen) = [] := List.map_eq_nil_iff.mp h
  unfold OrderItem.setChosenAllergies
  rw [hfilter] at hnone
  simp [hnone]

/-- Names without commas are read off the run-together text. -/
theorem commas_inj {l : List String} : ∀ {l' : List String}, (∀ a ∈ l, ',' ∉ a.toList) →
    (∀ a ∈ l', ',' ∉ a.toList) → commas l = commas l' → l = l' := by
  have hcons : ∀ (a : String) (as : List String), ',' ∉ a.toList →
      (commas (a :: as)).takeWhile (· ≠ ',') = a.toList ∧
        (commas (a :: as)).dropWhile (· ≠ ',') = ", ".toList ++ commas as := by
    intro a as ha
    have hall : ∀ c ∈ a.toList, decide (c ≠ ',') = true := by
      intro c hc
      rw [decide_eq_true_eq]
      rintro rfl
      exact ha hc
    have hsplit : commas (a :: as) = a.toList ++ (", ".toList ++ commas as) := by
      rw [commas, List.flatMap_cons, List.append_assoc]
      rfl
    rw [hsplit, List.takeWhile_append_of_pos hall, List.dropWhile_append_of_pos hall]
    constructor
    · simp
    · simp
  induction l with
  | nil =>
    intro l' _ _ h
    cases l' with
    | nil => rfl
    | cons a as => simp [commas] at h
  | cons b bs ih =>
    intro l' hl hl' h
    cases l' with
    | nil => simp [commas] at h
    | cons a as =>
      obtain ⟨htb, hdb⟩ := hcons b bs (hl b List.mem_cons_self)
      obtain ⟨hta, hda⟩ := hcons a as (hl' a List.mem_cons_self)
      rw [h] at htb hdb
      have hname : b = a := String.toList_inj.mp (htb.symm.trans hta)
      have hrest : commas bs = commas as := List.append_cancel_left (hdb.symm.trans hda)
      rw [hname, ih (fun c hc => hl c (List.mem_cons_of_mem _ hc))
        (fun c hc => hl' c (List.mem_cons_of_mem _ hc)) hrest]

/-- **The label** tells which allergies are chosen. -/
theorem setChosenAllergies_inj {P : Prepend} {x y : OrderItem} (hx : ∀ a ∈ x.chosen, Legible P a)
    (hy : ∀ a ∈ y.chosen, Legible P a) (h : x.setChosenAllergies P = y.setChosenAllergies P) :
    x.chosen = y.chosen := by
  have hhead : ∀ z : OrderItem, z.chosen ≠ [] → (∀ a ∈ z.chosen, Legible P a) →
      z.setChosenAllergies P ≠ "No Allergies Added" := by
    intro z hne hz he
    have htext := toList_setChosenAllergies hne hz
    rw [he] at htext
    exact absurd (congrArg List.head? htext) (by simp)
  by_cases hxe : x.chosen = []
  · by_cases hye : y.chosen = []
    · rw [hxe, hye]
    · exact absurd (h.symm.trans (setChosenAllergies_none hxe)) (hhead y hye hy)
  · by_cases hye : y.chosen = []
    · exact absurd (h.trans (setChosenAllergies_none hye)) (hhead x hxe hx)
    · have htext := toList_setChosenAllergies hxe hx
      rw [h, toList_setChosenAllergies hye hy] at htext
      exact (commas_inj (fun a ha => (hy a ha).1) (fun a ha => (hx a ha).1)
        (List.append_cancel_left htext)).symm

/-! ## The whole screen -/

/-- All that the cells of the screen show, in the order of its rows. The title
is the item's own and no edit changes it. -/
structure ItemScreen where
  options : List OptionCell
  types : List (String × List OptionCell)
  chosenAllergies : String
  checkout : CheckoutCell
  deriving DecidableEq

/-- mirrors ItemDetailsViewController.swift:61-126 and OptionsCollectionViewCell.swift:30-46 -/
def screenOf (P : Prepend) (stock : Option Bool) (x : OrderItem) : ItemScreen where
  options := x.options.map makeOptionCell
  types := x.types.map fun t => ("Please Select " ++ t.name, t.choices.map makeOptionCell)
  chosenAllergies := x.setChosenAllergies P
  checkout := x.setUp stock

/-- An option is its menu entry and its quantity. -/
theorem ItemOption.ext_blank {o p : ItemOption} (h : o.blank = p.blank) (hq : o.quantity = p.quantity) :
    o = p := by
  cases o
  cases p
  simp only [ItemOption.blank, ItemOption.mk.injEq] at h hq ⊢
  exact ⟨h.1, h.2.1, h.2.2.1, hq⟩

/-- In a radio group the rows tell the quantities. -/
theorem options_of_cells {l l' : List ItemOption} (hl : RadioGroup l) (hl' : RadioGroup l')
    (hblank : l.map ItemOption.blank = l'.map ItemOption.blank)
    (h : l.map makeOptionCell = l'.map makeOptionCell) : l = l' := by
  have hlen : l.length = l'.length := by
    have hlen := congrArg List.length h
    rwa [List.length_map, List.length_map] at hlen
  refine List.ext_getElem hlen fun j hj hj' => ?_
  have hj₀ : l[j]? = some l[j] := List.getElem?_eq_getElem hj
  have hj₁ : l'[j]? = some l'[j] := List.getElem?_eq_getElem hj'
  have hmenu : l[j].blank = l'[j].blank := by
    have hb := congrArg (·[j]?) hblank
    simpa [hj₀, hj₁] using hb
  have hcell : makeOptionCell l[j] = makeOptionCell l'[j] := by
    have hc := congrArg (·[j]?) h
    simpa [hj₀, hj₁] using hc
  generalize l[j] = o at hj₀ hmenu hcell
  generalize l'[j] = p at hj₁ hmenu hcell
  have hmult : o.canHaveMultiple = p.canHaveMultiple :=
    (congrArg ItemOption.canHaveMultiple hmenu : o.blank.canHaveMultiple = p.blank.canHaveMultiple)
  have hquantity : o.quantity = p.quantity := by
    have hmark := congrArg OptionCell.mark hcell
    unfold makeOptionCell at hmark
    dsimp only at hmark
    rw [← hmult] at hmark
    cases hm : o.canHaveMultiple with
    | true =>
      rw [hm, if_pos rfl, if_pos rfl] at hmark
      exact toString_inj (Mark.quantityCount.inj hmark)
    | false =>
      rw [hm] at hmark
      have hbox : o.quantity = 0 ↔ p.quantity = 0 := by simpa using hmark
      by_cases hq : o.quantity = 0
      · rw [hq, hbox.mp hq]
      · have hp : ¬ p.quantity = 0 := fun hp => hq (hbox.mpr hp)
        rw [hl.once j o hj₀ ⟨hq, hm⟩, hl'.once j p hj₁ ⟨hp, hmult.symm.trans hm⟩]
  exact ItemOption.ext_blank hmenu hquantity

theorem types_of_cells {l l' : List ItemType} (hl : ∀ t ∈ l, RadioGroup t.choices)
    (hl' : ∀ t ∈ l', RadioGroup t.choices) (hblank : l.map ItemType.blank = l'.map ItemType.blank)
    (h : l.map (fun t => t.choices.map makeOptionCell) = l'.map fun t => t.choices.map makeOptionCell) :
    l = l' := by
  induction l generalizing l' with
  | nil =>
    cases l' with
    | nil => rfl
    | cons t ts => cases h
  | cons t ts ih =>
    cases l' with
    | nil => cases h
    | cons u us =>
      simp only [List.map_cons, List.cons.injEq] at hblank h
      have hchoices : t.choices = u.choices :=
        options_of_cells (hl t List.mem_cons_self) (hl' u List.mem_cons_self)
          (congrArg ItemType.choices hblank.1) h.1
      have hname : t.name = u.name :=
        (congrArg ItemType.name hblank.1 : t.blank.name = u.blank.name)
      have hhead : t = u := by
        cases t
        cases u
        simp only [ItemType.mk.injEq] at hname hchoices ⊢
        exact ⟨hname, hchoices⟩
      rw [hhead, ih (fun v hv => hl v (List.mem_cons_of_mem _ hv))
        (fun v hv => hl' v (List.mem_cons_of_mem _ hv)) hblank.2 h.2]

/-- Which names are chosen decides the list, where no name comes twice. -/
theorem allergies_of_chosen {l : List Allergy} : ∀ {l' : List Allergy}, (l.map (·.name)).Nodup →
    l.map (·.name) = l'.map (·.name) →
    (l.filter (·.isChosen)).map (·.name) = (l'.filter (·.isChosen)).map (·.name) → l = l' := by
  intro l' hn hnames h
  have hmem : ∀ {l : List Allergy}, (l.map (·.name)).Nodup → ∀ a ∈ l,
      (a.isChosen = true ↔ a.name ∈ (l.filter (·.isChosen)).map (·.name)) := by
    intro l hn a ha
    constructor
    · intro hc
      exact List.mem_map_of_mem (List.mem_filter.mpr ⟨ha, hc⟩)
    · intro hc
      obtain ⟨b, hb, hname⟩ := List.mem_map.mp hc
      obtain ⟨hbl, hbc⟩ := List.mem_filter.mp hb
      rw [List.inj_on_of_nodup_map hn ha hbl hname.symm]
      exact hbc
  have hlen : l.length = l'.length := by
    have hlen := congrArg List.length hnames
    rwa [List.length_map, List.length_map] at hlen
  refine List.ext_getElem hlen fun j hj hj' => ?_
  have hname : l[j].name = l'[j].name := by
    have hj₀ := congrArg (·[j]?) hnames
    simpa [List.getElem?_eq_getElem hj, List.getElem?_eq_getElem hj'] using hj₀
  have hchosen : l[j].isChosen = l'[j].isChosen := by
    rw [Bool.eq_iff_iff, hmem hn _ (List.getElem_mem hj), hmem (hnames ▸ hn) _ (List.getElem_mem hj'),
      h, hname]
  generalize l[j] = a at hname hchosen
  generalize l'[j] = b at hname hchosen
  cases a
  cases b
  simp only [Allergy.mk.injEq] at hname hchosen ⊢
  exact ⟨hname, hchosen⟩

theorem chosen_subset {x₀ x : OrderItem} {names : List String} (h : SameMenu x₀ x)
    (h₀ : x₀.allergies.map (·.name) = names) : ∀ a ∈ x.chosen, a ∈ names := by
  intro a ha
  obtain ⟨b, hb, rfl⟩ := List.mem_map.mp ha
  rw [← h₀, ← h.allergies]
  exact List.mem_map_of_mem (List.mem_of_mem_filter hb)

/-- **What you see is what you order.** On a menu in whole pence, and with
allergy names that the label can tell apart, two states of the sessions on an
item show the same screen only if they are the same. -/
theorem screen_faithful {item : Item} {names : List String} {x₀ x y : OrderItem} (P : Prepend)
    (h₀ : createOrderItem item names = some x₀) (hw : WholePence x₀) (hnames : names.Nodup)
    (hlegible : ∀ a ∈ names, Legible P a) (hx : (detail item names).Reachable x)
    (hy : (detail item names).Reachable y) :
    screenOf P item.stock x = screenOf P item.stock y ↔ x = y := by
  refine ⟨fun h => ?_, fun h => by rw [h]⟩
  have hsx := sameMenu_reachable h₀ hx
  have hsy := sameMenu_reachable h₀ hy
  have hgx := radioGroups_reachable hx
  have hgy := radioGroups_reachable hy
  have hall : x₀.allergies.map (·.name) = names := by
    rw [(createOrderItem_created h₀).allergies, List.map_map]
    exact List.map_id'' (fun _ => rfl) names
  have hoptions : x.options = y.options :=
    options_of_cells (hgx .options _ rfl) (hgy .options _ rfl) (hsx.options.trans hsy.options.symm)
      (congrArg ItemScreen.options h)
  have hgroups : ∀ {z : OrderItem}, RadioGroups z → ∀ t ∈ z.types, RadioGroup t.choices := by
    intro z hz t ht
    obtain ⟨i, hi⟩ := List.mem_iff_getElem?.mp ht
    exact hz (.choices i) t.choices (by simp only [OrderItem.getList, hi, Option.map_some])
  have htypes : x.types = y.types := by
    have hcells := congrArg (List.map Prod.snd) (congrArg ItemScreen.types h)
    simp only [screenOf, List.map_map] at hcells
    exact types_of_cells (hgroups hgx) (hgroups hgy) (hsx.types.trans hsy.types.symm) hcells
  have hchosen : x.chosen = y.chosen :=
    setChosenAllergies_inj (fun a ha => hlegible a (chosen_subset hsx hall a ha))
      (fun a ha => hlegible a (chosen_subset hsy hall a ha)) (congrArg ItemScreen.chosenAllergies h)
  have hallergies : x.allergies = y.allergies := by
    refine allergies_of_chosen ?_ (hsx.allergies.trans hsy.allergies.symm) hchosen
    rw [hsx.allergies, hall]
    exact hnames
  have hquantity : x.quantity = y.quantity :=
    toString_inj (congrArg (fun s => s.checkout.quantityLabel) h)
  have hprice : x.price = y.price := by
    have hfx : x.price = _ := fresh_reachable h₀ hw hx
    have hfy : y.price = _ := fresh_reachable h₀ hw hy
    rw [hfx, hfy, OrderItem.unitPrice, OrderItem.unitPrice, hsx.refItem, hsy.refItem, hoptions, htypes,
      hquantity]
  have hrefItem := hsx.refItem.trans hsy.refItem.symm
  have hitemID := hsx.itemID.trans hsy.itemID.symm
  have hitemName := hsx.itemName.trans hsy.itemName.symm
  have hlocation := hsx.location.trans hsy.location.symm
  have htag := hsx.tag.trans hsy.tag.symm
  cases x
  cases y
  simp only [OrderItem.mk.injEq]
  exact ⟨hrefItem, hitemID, hitemName, hlocation, hallergies, hoptions, hprice, hquantity, htypes, htag⟩

/-- The small and the large size look different. -/
theorem screen_faithful_mocha : ∃ x y, (detail mocha ["Nuts"]).Reachable x ∧
    (detail mocha ["Nuts"]).Reachable y ∧
    screenOf noPrepend mocha.stock x ≠ screenOf noPrepend mocha.stock y := by
  obtain ⟨x₀, h₀⟩ : ∃ x₀, createOrderItem mocha ["Nuts"] = some x₀ := ⟨_, rfl⟩
  have hw : WholePence x₀ := by
    cases h₀
    exact ⟨wholePence_mocha.base, wholePence_mocha.options, wholePence_mocha.choices⟩
  obtain ⟨x, hx, hsmall⟩ : ∃ x, (detail mocha ["Nuts"]).Run x₀ [.tapRow {} 2 0] x ∧
      (x.types.flatMap fun t => t.choices.map (·.quantity)) = [1, 0] := by
    cases h₀
    exact ⟨_, .cons ⟨⟨_, rfl, by decide⟩, rfl⟩ (.nil _), rfl⟩
  obtain ⟨y, hy, hlarge⟩ : ∃ y, (detail mocha ["Nuts"]).Run x₀ [.tapRow {} 2 1] y ∧
      (y.types.flatMap fun t => t.choices.map (·.quantity)) = [0, 1] := by
    cases h₀
    exact ⟨_, .cons ⟨⟨_, rfl, by decide⟩, rfl⟩ (.nil _), rfl⟩
  refine ⟨x, y, hx.reachable h₀, hy.reachable h₀, fun h => ?_⟩
  have hlegible : ∀ a ∈ ["Nuts"], Legible noPrepend a := by
    intro a ha
    obtain rfl := List.mem_singleton.mp ha
    refine ⟨by decide, ?_⟩
    rintro ⟨c, -, hc⟩
    cases hc
  have hxy := (screen_faithful noPrepend h₀ hw (by decide) hlegible (hx.reachable h₀)
    (hy.reachable h₀)).mp h
  rw [hxy, hlarge] at hsmall
  revert hsmall
  decide

end QadsCafe

import QadsCafe.L4App.Baskets

/-!
# Orders reach the outlet they were chosen at

The encoder overwrites the order's location with each item's ("Ensures that
the order is set to the correct location"), so a document is filed where its
last item is located. That is wrong for an item located at "both"
(`both_has_no_outlet`), which keeps that string, and for Bar and Buttery items,
which share a basket (`bar_and_buttery_mixed`).

`OneOutlet` leaves these additions out. Then every document is filed at the
outlet all its items were chosen at, and any addition it leaves out makes the
next checkout file a document elsewhere: `right_outlet`.
-/
namespace QadsCafe

open Core

namespace App

/-- The item is located at the outlet it was chosen at, and its basket holds
items of that outlet only. -/
def OneOutlet (s : App) (e : Ev) : Prop :=
  ∀ b x, e = .addItem b x → x.location = some x.tag.menu.location ∧
    ∀ y ∈ (s.order b).items, y.tag.menu = x.tag.menu

/-- The invariant of a basket. -/
def Sorted (_ : Basket) (o : Order) : Prop :=
  (∀ x ∈ o.items, x.location = some x.tag.menu.location) ∧
    ∀ x ∈ o.items, ∀ y ∈ o.items, x.tag.menu = y.tag.menu

theorem sorted_inv : BasketInv Sorted := by
  refine ⟨fun b => ⟨fun x hx => ?_, fun x hx => ?_⟩, fun b o o' hi _ h => ?_,
    fun b o i x _ h => ⟨fun y hy => ?_, fun y hy z hz => ?_⟩⟩
  · cases hx
  · cases hx
  · unfold Sorted; rw [hi]; exact h
  · exact h.1 y (List.eraseIdx_subset hy)
  · exact h.2 y (List.eraseIdx_subset hy) z (List.eraseIdx_subset hz)

theorem sorted_addItem {s : App} {b : Basket} {x : OrderItem} (h : Sorted b (s.order b))
    (hx : OneOutlet s (.addItem b x)) : Sorted b ((s.order b).addItem (s.stored x)) := by
  obtain ⟨hloc, hsame⟩ := hx b x rfl
  have hmem : ∀ y, y ∈ ((s.order b).addItem (s.stored x)).items →
      y ∈ (s.order b).items ∨ y = s.stored x := by
    intro y hy
    simpa [Order.addItem] using hy
  refine ⟨fun y hy => ?_, fun y hy z hz => ?_⟩
  · rcases hmem y hy with hy | rfl
    · exact h.1 y hy
    · exact hloc
  · rcases hmem y hy with hy | rfl <;> rcases hmem z hz with hz | rfl
    · exact h.2 y hy z hz
    · exact hsame y hy
    · exact (hsame z hz).symm
    · rfl

theorem lastLocation_mem (location : Option String) {l : List OrderItem} (hl : l ≠ []) :
    ∃ y ∈ l, lastLocation location l = y.location := by
  refine ⟨l.getLast hl, List.getLast_mem hl, ?_⟩
  simp [lastLocation, List.getLast?_eq_getLast_of_ne_nil hl]

/-- Such an order is filed at the outlet of its items. -/
theorem Sorted.location {b : Basket} {o : Order} (h : Sorted b o) (crsid : Option String) :
    ∀ x ∈ o.items, (docOf crsid o).location = some x.tag.menu.location := by
  intro x hx
  obtain ⟨y, hy, hlast⟩ := lastLocation_mem o.location (List.ne_nil_of_mem hx)
  show lastLocation o.location o.items = _
  rw [hlast, h.1 y hy, h.2 y hy x hx]

/-! ## Any other addition is filed wrongly -/

theorem location_injective {o o' : Outlet} (h : o.location = o'.location) : o = o' := by
  cases o <;> cases o' <;> simp [Outlet.location] at h ⊢

/-- A request whose document is filed away from an item's outlet. -/
def Misfiled (s : App) : Prop :=
  ∃ c w x, .issued c ∈ s.log ∧ c.write? = some w ∧ x ∈ w.built ∧
    w.data.location ≠ some x.tag.menu.location

theorem misfiled_of_addition {menuitems : Dict (Dict Value)} {s t : App} {b : Basket} {x : OrderItem}
    (hr : (app.when (FromMenu menuitems)).Reachable s)
    (hs : (app.when (FromMenu menuitems)).step s (.addItem b x) t) (hn : ¬ OneOutlet s (.addItem b x))
    (now : Basket → Date) : ∃ u, app.step t (.checkout now) u ∧ Misfiled u := by
  have ht := (chosen_reachable (hr.step hs)).order
  obtain ⟨htrap, he, rfl⟩ := step_iff.mp hs.1
  have htrap' : ((s.addItem b x).checkout now).trap = none :=
    (checkout_trap now fun c => encodable_of_chosen (ht c)).trans htrap
  have hitems : ((s.addItem b x).order b).items = (s.order b).items ++ [s.stored x] := by
    show ((s.setOrder b ((s.order b).addItem (s.stored x))).order b).items = _
    rw [order_setOrder, if_pos rfl]; rfl
  obtain ⟨c, w, hsent, -, hlog⟩ := checkout_sent htrap' (b := b) (by rw [hitems]; simp)
  have hbuilt : w.built = (s.order b).items ++ [s.stored x] := hsent.built.trans hitems
  have hloc : w.data.location = x.location := by
    obtain ⟨crsid, o, hi, hd⟩ := hsent.data
    rw [hd]
    show lastLocation o.location o.items = x.location
    rw [hi, hbuilt]
    simp [lastLocation, App.stored]
  have henabled : (s.addItem b x).enabled (.checkout now) = true := by
    show (s.user.setOrder b _).uid.isSome = true
    rw [User.uid_setOrder]; exact he
  refine ⟨_, step_iff.mpr ⟨htrap, henabled, rfl⟩, ?_⟩
  by_cases hx : x.location = some x.tag.menu.location
  · -- then an earlier item of the basket is from another outlet
    have hother : ∃ y ∈ (s.order b).items, y.tag.menu ≠ x.tag.menu := by
      by_contra hno
      apply hn
      intro b' x' heq
      cases heq
      refine ⟨hx, fun y hy => ?_⟩
      by_contra hne
      exact hno ⟨y, hy, hne⟩
    obtain ⟨y, hy, hne⟩ := hother
    refine ⟨c, w, y, hlog, hsent.write, by rw [hbuilt]; exact List.mem_append_left _ hy, ?_⟩
    rw [hloc, hx]
    intro heq
    exact hne (location_injective (Option.some.inj heq).symm)
  · refine ⟨c, w, s.stored x, hlog, hsent.write, by rw [hbuilt]; simp, ?_⟩
    rw [hloc]; exact hx

/-! ## The result -/

/-- **Right outlet.** In every run that adds to a basket only items located at
the outlet whose menu they were chosen from, and items of one outlet at a
time, every document is filed at the outlet of each of its items. After any
other addition the next checkout files one elsewhere. -/
theorem right_outlet (s : App) :
    ((app.when OneOutlet).Reachable s → ¬ Misfiled s) ∧
    (∀ menuitems t b x now, (app.when (FromMenu menuitems)).Reachable s →
      (app.when (FromMenu menuitems)).step s (.addItem b x) t → ¬ OneOutlet s (.addItem b x) →
      ∃ u, app.step t (.checkout now) u ∧ Misfiled u) := by
  refine ⟨fun hs hm => ?_, fun menuitems t b x now hr hs hn => misfiled_of_addition hr hs hn now⟩
  obtain ⟨c, w, x, hlog, hw, hx, hne⟩ := hm
  have hinv : Holds Sorted s :=
    holds_reachable sorted_inv (fun s b x hi hC => sorted_addItem (hi.order b) hC) hs
  obtain ⟨crsid, o, ho, hi, hd⟩ := hinv.issued c hlog w hw
  apply hne
  rw [hd]
  exact ho.location crsid x (by rw [hi]; exact hx)

/-- A menu with a Bar item, a Buttery item and one filed under "both". -/
def sampleMenu : Dict (Dict Value) :=
  [("ale", [("name", .string "Ale"), ("location", .string "Bar"), ("category", .string "beer")]),
    ("soap", [("name", .string "Soap"), ("location", .string "Buttery"), ("category", .string "home")]),
    ("tea", [("name", .string "Tea"), ("location", .string "both"), ("category", .string "hot")])]

/-- The first item the menu of the outlet lists in the category, as it opens. -/
def opened (o : Outlet) (category : String) : OrderItem :=
  match loadItemsFor sampleMenu o.location category with
  | item :: _ => { ((createOrderItem item []).getD {}) with tag := { menu := o } }
  | [] => {}

/-- **Bar and Buttery items share a document.** -/
theorem bar_and_buttery_mixed :
    Chosen sampleMenu (opened .bar "beer") ∧ Chosen sampleMenu (opened .buttery "home") ∧
    ∃ s, app.Run {} (signUp ++ [addToBasketTapped (opened .bar "beer"),
      addToBasketTapped (opened .buttery "home"), .checkout fun _ => 0]) s ∧ Misfiled s := by
  refine ⟨⟨"beer", [], _, _, List.mem_singleton.mpr rfl, .init rfl, rfl⟩,
    ⟨"home", [], _, _, List.mem_singleton.mpr rfl, .init rfl, rfl⟩, _, LTS.run_of_exec rfl, ?_⟩
  exact ⟨_, _, _, List.mem_of_getElem? (i := 2) rfl, rfl, List.mem_of_getElem? (i := 0) rfl,
    by decide⟩

/-- **"both" is no outlet.** -/
theorem both_has_no_outlet :
    Chosen sampleMenu (opened .cafe "hot") ∧
    ∃ s, app.Run {} (signUp ++ [addToBasketTapped (opened .cafe "hot"), .checkout fun _ => 0]) s ∧
      Misfiled s := by
  refine ⟨⟨"hot", [], _, _, List.mem_singleton.mpr rfl, .init rfl, rfl⟩, _, LTS.run_of_exec rfl, ?_⟩
  exact ⟨_, _, _, List.mem_of_getElem? (i := 1) rfl, rfl, List.mem_of_getElem? (i := 0) rfl,
    by decide⟩

end App

end QadsCafe

import QadsCafe.L2Detail.Calls
import QadsCafe.L3Order.Encoding
import QadsCafe.L4App.Baskets

/-!
# The units of a basket

An order document lists units: each item as many times as its quantity, with
the quantities of its options. `units_of_basket` says that the baskets that
the item-detail screen fills can always be encoded, to exactly these units,
and that encoding changes nothing but the order's location, so a retry
encodes the same list again.
-/
namespace QadsCafe

open Core

/-- An item as a session of the item-detail screen leaves it. -/
def Configured (x : OrderItem) : Prop :=
  ∃ item names y, (detail item names).Reachable y ∧ x = { y with tag := x.tag }

/-- Items are added at the end of a session. -/
def ThroughScreen (_ : App) (e : Ev) : Prop := ∀ b x, e = .addItem b x → Configured x

theorem Configured.quantity {x : OrderItem} (h : Configured x) : 1 ≤ x.quantity ∧ x.quantity ≤ 10 := by
  obtain ⟨item, names, y, hy, hx⟩ := h
  have hq := quantity_reachable hy
  rw [hx]; exact hq

theorem length_flatMap_units {l : List OrderItem} (h : Encodable l) :
    ((l.flatMap units).length : Int) = (l.map (·.quantity)).sum := by
  induction l with
  | nil => rfl
  | cons x xs ih =>
    have hx := h x List.mem_cons_self
    have hxs := ih fun y hy => h y (List.mem_cons_of_mem _ hy)
    simp only [List.flatMap_cons, List.length_append, units, List.length_replicate, List.map_cons,
      List.sum_cons, Nat.cast_add] at hxs ⊢
    omega

/-- What one unit of `x` carries. -/
structure UnitOf (x : OrderItem) (d : ItemDic) : Prop where
  id : d.id = x.itemID
  name : d.name = x.itemName
  options : (x.options.map (·.name)).Nodup →
    (∀ o ∈ x.options, d.options.lookup o.name = some ⟨o.name, o.quantity⟩) ∧
    ∀ key, key ∈ d.options.keys → ∃ o ∈ x.options, o.name = key

theorem unitOf_itemDic (x : OrderItem) : UnitOf x (itemDic x) := by
  refine ⟨rfl, rfl, fun hn => ⟨fun o ho => ?_, fun key hkey => ?_⟩⟩
  · show (optionsDic x.options).lookup o.name = _
    rw [optionsDic_eq, lookup_dict, lastKeyed_eq hn ho]
    rfl
  · have hkey' : key ∈ (optionsDic x.options).keys := hkey
    rw [optionsDic_eq, mem_keys_dict] at hkey'
    exact List.mem_map.mp hkey'

theorem configureItems_eq {o : Order} (h : Encodable o.items) :
    o.configureItems =
      some (o.items.flatMap units, { o with location := lastLocation o.location o.items }) := by
  simp [Order.configureItems, configureGo_eq _ _ h]

namespace App

theorem configured_reachable {s : App} (h : (app.when ThroughScreen).Reachable s) (b : Basket) :
    ∀ x ∈ (s.order b).items, Configured x := by
  have hholds : Holds (fun _ o => ∀ x ∈ o.items, Configured x) s := by
    refine holds_reachable BasketInv.forall (fun s b x hi hC y hy => ?_) h
    simp only [Order.addItem, List.mem_append, List.mem_singleton] at hy
    rcases hy with hy | rfl
    · exact hi.order b y hy
    · obtain ⟨item, names, z, hz, hx⟩ := hC b x rfl
      exact ⟨item, names, z, hz, by rw [hx]; rfl⟩
  exact hholds.order b

/-- **Units.** In every run that adds finished sessions, an order can be
encoded: to each of its items in turn, as many equal units as its quantity.
Nothing but the location changes, and encoding again, or any order of the same
items, gives the same list. -/
theorem units_of_basket {s : App} (h : (app.when ThroughScreen).Reachable s) (b : Basket) :
    ∃ l o location, (s.order b).configureItems = some (l, o) ∧
      l = ((s.order b).items.flatMap fun x => List.replicate x.quantity.toNat (itemDic x)) ∧
      (∀ x ∈ (s.order b).items, 1 ≤ x.quantity ∧ UnitOf x (itemDic x)) ∧
      (l.length : Int) = ((s.order b).items.map (·.quantity)).sum ∧
      o = { s.order b with location } ∧
      ∀ o' : Order, o'.items = (s.order b).items → o'.configureItems.map Prod.fst = some l := by
  have hconf := configured_reachable h b
  have he : Encodable (s.order b).items := fun x hx => (hconf x hx).quantity.1
  refine ⟨_, _, _, configureItems_eq he, rfl, fun x hx => ⟨he x hx, unitOf_itemDic x⟩,
    length_flatMap_units he, rfl, fun o' ho' => ?_⟩
  rw [configureItems_eq (ho'.symm ▸ he), ho']
  rfl

/-- Two mochas for the cafe, and one for the bar that is deleted again. -/
def mochas : List Ev :=
  signUp ++ [.addItem .cafe (mochaOpened.stepperTapped 2), .addItem .bar mochaOpened, .removeItemAt 1]

theorem units_of_mochas : ∃ s l o, (app.when ThroughScreen).Reachable s ∧
    (s.order .cafe).configureItems = some (l, o) ∧ l.length = 2 := by
  have hone : (detail mocha []).Reachable mochaOpened := .init rfl
  have htwo : (detail mocha []).Reachable (mochaOpened.stepperTapped 2) :=
    hone.step (l := .stepperTapped 2) ⟨⟨by decide, by decide⟩, rfl⟩
  have hrun : app.Run {} mochas _ := LTS.run_of_exec rfl
  have hscreen : ∀ e ∈ mochas, ∀ s, ThroughScreen s e := by
    intro e he s b x hadd
    subst hadd
    simp only [mochas, signUp, List.cons_append, List.nil_append, List.mem_cons, reduceCtorEq,
      List.not_mem_nil, or_false, false_or, Ev.addItem.injEq] at he
    rcases he with ⟨-, rfl⟩ | ⟨-, rfl⟩
    · exact ⟨mocha, [], _, htwo, rfl⟩
    · exact ⟨mocha, [], _, hone, rfl⟩
  have hr := (hrun.when hscreen).reachable launch_default
  obtain ⟨l, o, location, hconf, hl, -⟩ := units_of_basket hr .cafe
  refine ⟨_, l, o, hr, hconf, ?_⟩
  rw [hl]
  rfl

end App

end QadsCafe

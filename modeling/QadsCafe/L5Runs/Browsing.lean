import QadsCafe.L4App.Menus

/-!
# What the menus put in the baskets

The results about the app assume that items come from finished sessions on the
menu of an outlet (`FromMenu`). The screens are what makes this so.

Results:
* `menus_refine`: a run of the screens is a run of the app under `FromMenu`,
  and the add button works wherever it is shown.
* `traced_run`: behind every item of a basket is a tap on a category of its
  outlet, made while that tab had the outlet as open, and the item is in the
  menu of that category.
* `crash_iff`: the screens trap only where a menu document cannot be opened.
-/
namespace QadsCafe

open Core

namespace Menus

variable {menuitems : Dict (Dict Value)} {sort : SortBy Category} {P : Prepend}

/-! ## What the screens hold -/

structure Sound (menuitems : Dict (Dict Value)) (s : Menus) : Prop where
  items : ∀ o screen, s.items o = some screen →
    screen.Sound menuitems o.location screen.category ∧ s.app.user.uid.isSome = true
  presented : ∀ o d, s.presented = some (o, d) →
    (∃ category, ∃ item ∈ loadItemsFor menuitems o.location category, d.Sound item) ∧
      s.app.user.uid.isSome = true

/-- Screens that are gone hold nothing. -/
theorem Sound.bare (app : App) : Sound menuitems { app } := by
  refine ⟨fun o screen h => ?_, fun o d h => ?_⟩
  · cases h
  · cases h

theorem Sound.app {s : Menus} (h : s.Sound menuitems) {e : Ev} {t : App} (ht : s.app.step e = some t) :
    (s.after e t).Sound menuitems := by
  unfold after
  split
  · exact Sound.bare t
  · rename_i he
    have huid := App.uid_step ht (by simpa using he)
    refine ⟨fun o screen hs => ?_, fun o d hs => ?_⟩
    · rw [huid]; exact h.items o screen hs
    · rw [huid]; exact h.presented o d hs

/-- The items screen of an outlet is replaced. -/
theorem items_update {s : Menus} {o o' : Outlet} {new : Option ItemsScreen} {screen : ItemsScreen}
    (h : Function.update s.items o new o' = some screen) :
    (o' = o ∧ new = some screen) ∨ s.items o' = some screen := by
  by_cases ho : o' = o
  · subst ho
    rw [Function.update_self] at h
    exact .inl ⟨rfl, h⟩
  · rw [Function.update_of_ne ho] at h
    exact .inr h

theorem Sound.update {s : Menus} (h : s.Sound menuitems) (o : Outlet) {new : Option ItemsScreen}
    (hnew : ∀ screen, new = some screen →
      screen.Sound menuitems o.location screen.category ∧ s.app.user.uid.isSome = true) :
    Sound menuitems { s with items := Function.update s.items o new } := by
  refine ⟨fun o' screen hs => ?_, h.presented⟩
  rcases items_update hs with ⟨rfl, he⟩ | he
  · exact hnew screen he
  · exact h.items o' screen he

/-- The items screen that a tap pushes: the tab was open and the row is that of
its category. -/
theorem didSelectItemAt_push {o : Outlet} {t : Tab} {row : Nat} {screen : ItemsScreen}
    (h : t.didSelectItemAt o row = some (some screen)) : t.isOpen = true ∧
      ∃ c, t.categories[row]? = some c ∧
        screen = { location := o.location, category := c.name.getD "" } := by
  unfold Tab.didSelectItemAt at h
  split at h
  · cases h
  · rename_i hopen
    obtain ⟨c, hc, he⟩ := Option.map_eq_some_iff.mp h
    cases he
    exact ⟨by simpa using hopen, c, hc, rfl⟩

theorem selectCategory_cases (s : Menus) (o : Outlet) {row : Nat}
    (hrow : row < (s.tabs o).categories.length) : s.selectCategory o row = s ∨
      (s.tabs o).isOpen = true ∧ ∃ c, (s.tabs o).categories[row]? = some c ∧
        ∃ screen : ItemsScreen, screen = { location := o.location, category := c.name.getD "" } ∧
          s.selectCategory o row = { s with items := Function.update s.items o (some screen) } := by
  unfold selectCategory
  split
  · rename_i hnone
    unfold Tab.didSelectItemAt at hnone
    rw [List.getElem?_eq_getElem hrow] at hnone
    split at hnone <;> cases hnone
  · exact .inl rfl
  · rename_i screen hpush
    obtain ⟨hopen, c, hc, hscreen⟩ := didSelectItemAt_push hpush
    exact .inr ⟨hopen, c, hc, screen, hscreen, rfl⟩

theorem openItem_some {item : Item} {x : OrderItem} (h : openItem P item = some x) :
    createOrderItem item [] = some x := by
  simp only [openItem, Option.bind_eq_bind, Option.bind_eq_some_iff] at h
  obtain ⟨y, hy, _, -, _, -, he⟩ := h
  rw [hy, Option.some.inj he]

/-- A row on screen opens its item or traps in the code of the detail screen. -/
theorem selectItem_cases {s : Menus} (h : s.Sound menuitems) {o : Outlet} {screen : ItemsScreen}
    (hs : s.items o = some screen) {row : Nat}
    (hrow : row < screen.itemList.numberOfItemsInSection) :
    ∃ item, screen.itemList.itemAt row = some item ∧
      item ∈ loadItemsFor menuitems o.location screen.category ∧
      ((openItem P item = none ∧ s.selectItem P o screen row = { s with crashed := true }) ∨
        ∃ x, openItem P item = some x ∧
          s.selectItem P o screen row = { s with presented := some (o, { item := x }) }) := by
  obtain ⟨hscreen, -⟩ := h.items o screen hs
  obtain ⟨item, hitem⟩ := Option.ne_none_iff_exists'.mp
    (mt (hscreen.itemAt_none row).mp (not_not.mpr hrow))
  refine ⟨item, hitem, hscreen.itemAt_mem hitem, ?_⟩
  unfold selectItem
  rw [hitem]
  dsimp only
  cases hopen : openItem P item with
  | none => exact .inl ⟨rfl, rfl⟩
  | some x => exact .inr ⟨x, rfl, rfl⟩

theorem Sound.step {s t : Menus} {e : MenuEvent} (h : s.Sound menuitems)
    (hs : s.Step menuitems sort P e t) : t.Sound menuitems := by
  cases hs with
  | app e u _ hu => exact h.app hu
  | tab o e u => exact ⟨h.items, h.presented⟩
  | selectCategory o row hshow hrow =>
    rcases s.selectCategory_cases o hrow with heq | ⟨-, c, -, screen, rfl, heq⟩
    · rw [heq]; exact h
    · rw [heq]
      refine h.update o fun screen hnew => ?_
      cases hnew
      exact ⟨⟨⟨rfl, rfl⟩, fun _ => rfl, .inl rfl⟩, hshow.1⟩
  | itemsReply o ok screen u hscreen hu =>
    obtain ⟨hsound, huid⟩ := h.items o screen hscreen
    refine h.update o fun screen' hnew => ?_
    cases hnew
    have hreply := hsound.reply hu
    rw [hreply.place.2]
    exact ⟨hreply, huid⟩
  | back o screen hscreen => exact h.update o fun screen' hnew => by cases hnew
  | selectItem o row screen hscreen hrow =>
    obtain ⟨item, -, hmem, ⟨-, heq⟩ | ⟨x, hx, heq⟩⟩ := selectItem_cases (P := P) h hscreen.2.2 hrow
    · rw [heq]; exact ⟨h.items, h.presented⟩
    · rw [heq]
      refine ⟨h.items, fun o' d hd => ?_⟩
      cases hd
      exact ⟨⟨screen.category, item, hmem, .opened (openItem_some hx)⟩, hscreen.1⟩
  | detail o d u e hd hu =>
    refine ⟨h.items, fun o' d' hd' => ?_⟩
    cases hd'
    obtain ⟨⟨category, item, hmem, hsound⟩, huid⟩ := h.presented o d hd
    exact ⟨⟨category, item, hmem, hsound.step hu⟩, huid⟩
  | cancelTapped p hd => exact ⟨h.items, fun o d hd' => by cases hd'⟩
  | addToBasketTapped o d u hd hu =>
    have huid := App.uid_step hu rfl
    refine ⟨fun o' screen hscreen => ?_, fun o' d' hd' => by cases hd'⟩
    rw [huid]
    exact h.items o' screen hscreen

theorem sound_reachable {s : Menus} (h : (menus menuitems sort P).Reachable s) :
    s.Sound menuitems := by
  refine h.invariant (I := Sound menuitems) (fun s hs => ?_) fun s e t _ hi hs => ?_
  · rw [hs.2]; exact Sound.bare _
  · exact hi.step hs.2.2

/-! ## The app under the screens -/

/-- The order that the add button puts an item in. -/
def basketOf (x : OrderItem) : Basket := if x.location = some "Cafe" then .cafe else .bar

/-- The object that the add button puts in a basket. -/
def addedItem (app : App) (o : Outlet) (d : Opening) : OrderItem :=
  app.stored { d.item with tag := { d.item.tag with menu := o } }

theorem items_added {app t : App} {o : Outlet} {d : Opening} (h : app.step (addEvent o d) = some t)
    (b : Basket) : (t.order b).items =
      if b = basketOf d.item then (app.order b).items ++ [addedItem app o d] else (app.order b).items := by
  obtain ⟨-, -, rfl⟩ := App.step_iff.mp h
  show ((app.addItem (basketOf d.item) _).order b).items = _
  rw [App.order_addItem]
  split
  · rename_i hb
    rw [hb]
    rfl
  · rfl

/-- The screens add items as `FromMenu` says. -/
theorem Sound.fromMenu {s : Menus} (h : s.Sound menuitems) {o : Outlet} {d : Opening}
    (hd : s.presented = some (o, d)) : FromMenu menuitems s.app (addEvent o d) := by
  rintro b x he
  cases he
  obtain ⟨⟨category, item, hmem, hsound⟩, -⟩ := h.presented o d hd
  obtain ⟨names, hreach⟩ := hsound.detail
  exact ⟨⟨category, names, item, d.item, hmem, hreach, rfl⟩, rfl⟩

/-- A step of the screens is one of the app under `FromMenu`, or leaves it
alone. -/
theorem step_app {s t : Menus} {e : MenuEvent} (h : s.Sound menuitems)
    (hs : s.Step menuitems sort P e t) :
    t.app = s.app ∨ ∃ k, (QadsCafe.app.when (FromMenu menuitems)).step s.app k t.app := by
  cases hs with
  | app e u he hu =>
    have happ : (s.after e u).app = u := by unfold after; split <;> rfl
    rw [happ]
    exact .inr ⟨e, hu, fun b x hadd => absurd hadd (he b x)⟩
  | addToBasketTapped o d u hd hu => exact .inr ⟨_, hu, h.fromMenu hd⟩
  | selectCategory o row hshow hrow =>
    rcases s.selectCategory_cases o hrow with heq | ⟨-, c, -, screen, -, heq⟩
    · rw [heq]; exact .inl rfl
    · rw [heq]; exact .inl rfl
  | selectItem o row screen hscreen hrow =>
    obtain ⟨item, -, -, ⟨-, heq⟩ | ⟨x, -, heq⟩⟩ := selectItem_cases (P := P) h hscreen.2.2 hrow
    · rw [heq]; exact .inl rfl
    · rw [heq]; exact .inl rfl
  | _ => exact .inl rfl

/-- **The screens over the app.** A run of the screens is, in the app, a run
that adds items from the menu only; and in every state in which an item is
presented and nothing has trapped, the add button puts it in its basket. -/
theorem menus_refine {s₀ s : Menus} {ls : List MenuEvent} (h₀ : (menus menuitems sort P).init s₀)
    (hr : (menus menuitems sort P).Run s₀ ls s) :
    (∃ es, (QadsCafe.app.when (FromMenu menuitems)).Run s₀.app es s.app) ∧
      ∀ o d, s.presented = some (o, d) → s.app.trap = none → s.crashed = false →
        ∃ t x, (menus menuitems sort P).step s .addToBasketTapped t ∧ t.presented = none ∧
          x = { d.item with tag := x.tag } ∧ x.tag.menu = o ∧
          ∀ b, (t.app.order b).items =
            if b = basketOf x then (s.app.order b).items ++ [x] else (s.app.order b).items := by
  refine ⟨?_, fun o d hd ht hc => ?_⟩
  · refine hr.simulate (R := Menus.app) (I := Sound menuitems) (fun s e t hi hs => ?_)
      (fun s e t hi hs => ?_) ?_
    · exact hi.step hs.2.2
    · exact step_app hi hs.2.2
    · rw [h₀.2]; exact Sound.bare _
  · have hsound := sound_reachable (hr.reachable h₀)
    obtain ⟨-, huid⟩ := hsound.presented o d hd
    have hadd : s.app.step (addEvent o d) = some (s.app.fire (addEvent o d)) :=
      App.step_iff.mpr ⟨ht, huid, rfl⟩
    exact ⟨_, addedItem s.app o d, ⟨ht, hc, .addToBasketTapped o d _ hd hadd⟩, rfl, rfl, rfl,
      items_added hadd⟩

/-! ## Where an item comes from -/

section
variable (menuitems sort P)

/-- After the events `ls` there was a tap on a category of `o`, while its tab
had the outlet as open. -/
def Entered (s₀ : Menus) (ls : List MenuEvent) (o : Outlet) (category : String) : Prop :=
  ∃ l₁ row l₂ u c, ls = l₁ ++ .selectCategory o row :: l₂ ∧ (menus menuitems sort P).Run s₀ l₁ u ∧
    (u.tabs o).isOpen = true ∧ (u.tabs o).categories[row]? = some c ∧ category = c.name.getD ""

/-- Such a tap, on a category with this item in its menu. -/
def EnteredFor (s₀ : Menus) (ls : List MenuEvent) (o : Outlet) (item : Item) : Prop :=
  ∃ category, Entered menuitems sort P s₀ ls o category ∧ item ∈ loadItemsFor menuitems o.location category

structure Traced (s₀ : Menus) (ls : List MenuEvent) (s : Menus) : Prop where
  items : ∀ o screen, s.items o = some screen → Entered menuitems sort P s₀ ls o screen.category
  presented : ∀ o d, s.presented = some (o, d) → EnteredFor menuitems sort P s₀ ls o d.item.refItem
  basket : ∀ b, ∀ x ∈ (s.app.order b).items, EnteredFor menuitems sort P s₀ ls x.tag.menu x.refItem

end

theorem Entered.snoc {s₀ : Menus} {ls : List MenuEvent} {o : Outlet} {category : String}
    (h : Entered menuitems sort P s₀ ls o category) (e : MenuEvent) :
    Entered menuitems sort P s₀ (ls ++ [e]) o category := by
  obtain ⟨l₁, row, l₂, u, c, rfl, hu, hopen, hc, hcat⟩ := h
  exact ⟨l₁, row, l₂ ++ [e], u, c, by rw [List.append_assoc, List.cons_append], hu, hopen, hc, hcat⟩

theorem EnteredFor.snoc {s₀ : Menus} {ls : List MenuEvent} {o : Outlet} {item : Item}
    (h : EnteredFor menuitems sort P s₀ ls o item) (e : MenuEvent) :
    EnteredFor menuitems sort P s₀ (ls ++ [e]) o item := by
  obtain ⟨category, hentered, hmem⟩ := h
  exact ⟨category, hentered.snoc e, hmem⟩

/-- A step that shows no more than before. -/
theorem Traced.mono {s₀ s t : Menus} {ls : List MenuEvent} (h : Traced menuitems sort P s₀ ls s)
    (e : MenuEvent)
    (hi : ∀ o screen, t.items o = some screen →
      s.items o = some screen ∨ Entered menuitems sort P s₀ (ls ++ [e]) o screen.category)
    (hp : ∀ o d, t.presented = some (o, d) →
      s.presented = some (o, d) ∨ EnteredFor menuitems sort P s₀ (ls ++ [e]) o d.item.refItem)
    (hb : ∀ b, ∀ x ∈ (t.app.order b).items, x ∈ (s.app.order b).items ∨
      EnteredFor menuitems sort P s₀ (ls ++ [e]) x.tag.menu x.refItem) :
    Traced menuitems sort P s₀ (ls ++ [e]) t := by
  refine ⟨fun o screen hs => ?_, fun o d hs => ?_, fun b x hx => ?_⟩
  · rcases hi o screen hs with hs | hs
    · exact (h.items o screen hs).snoc e
    · exact hs
  · rcases hp o d hs with hs | hs
    · exact (h.presented o d hs).snoc e
    · exact hs
  · rcases hb b x hx with hx | hx
    · exact (h.basket b x hx).snoc e
    · exact hx

/-- Without an addition the baskets gain nothing. -/
theorem items_subset {s t : App} {e : Ev} (hs : s.step e = some t) (he : ∀ b x, e ≠ .addItem b x)
    (b : Basket) : (t.order b).items ⊆ (s.order b).items := by
  have hi := App.items_step hs b
  generalize (t.order b).items = l at hi
  cases hi with
  | kept => exact List.Subset.refl _
  | added x => exact absurd rfl (he b x)
  | removed index i x => exact (List.eraseIdx_sublist _ _).subset
  | reset => exact List.nil_subset _

theorem refItem_step {d t : Opening} {e : OpeningEvent} (h : d.Step e t) :
    t.item.refItem = d.item.refItem := by
  cases h with
  | edit hs hu => exact (edit_cases hs hu).sameMenu.refItem
  | allergens => rfl

theorem Traced.step {s₀ s t : Menus} {ls : List MenuEvent} {e : MenuEvent}
    (hr : (menus menuitems sort P).Run s₀ ls s) (hsound : s.Sound menuitems)
    (h : Traced menuitems sort P s₀ ls s) (hs : s.Step menuitems sort P e t) :
    Traced menuitems sort P s₀ (ls ++ [e]) t := by
  cases hs with
  | app e u he hu =>
    have happ : (s.after e u).app = u := by unfold after; split <;> rfl
    refine h.mono (.app e) (fun o screen hs => ?_) (fun o d hs => ?_) fun b x hx => ?_
    · unfold after at hs
      split at hs
      · cases hs
      · exact .inl hs
    · unfold after at hs
      split at hs
      · cases hs
      · exact .inl hs
    · rw [happ] at hx
      exact .inl (items_subset hu he b hx)
  | tab o e u => exact h.mono _ (fun _ _ => .inl) (fun _ _ => .inl) fun _ _ => .inl
  | selectCategory o row hshow hrow =>
    rcases s.selectCategory_cases o hrow with heq | ⟨hopen, c, hc, screen, rfl, heq⟩
    · rw [heq]
      exact h.mono _ (fun _ _ => .inl) (fun _ _ => .inl) fun _ _ => .inl
    · rw [heq]
      refine h.mono _ (fun o' screen hs => ?_) (fun _ _ => .inl) fun _ _ => .inl
      rcases items_update hs with ⟨rfl, he⟩ | he
      · cases he
        exact .inr ⟨ls, row, [], s, c, rfl, hr, hopen, hc, rfl⟩
      · exact .inl he
  | itemsReply o ok screen u hscreen hu =>
    refine h.mono _ (fun o' screen' hs => ?_) (fun _ _ => .inl) fun _ _ => .inl
    rcases items_update hs with ⟨rfl, he⟩ | he
    · cases he
      rw [((hsound.items o' screen hscreen).1.reply hu).place.2]
      exact .inr ((h.items o' screen hscreen).snoc _)
    · exact .inl he
  | back o screen hscreen =>
    refine h.mono _ (fun o' screen' hs => ?_) (fun _ _ => .inl) fun _ _ => .inl
    rcases items_update hs with ⟨rfl, he⟩ | he
    · cases he
    · exact .inl he
  | selectItem o row screen hscreen hrow =>
    obtain ⟨item, -, hmem, ⟨-, heq⟩ | ⟨x, hx, heq⟩⟩ := selectItem_cases (P := P) hsound hscreen.2.2 hrow
    · rw [heq]
      exact h.mono _ (fun _ _ => .inl) (fun _ _ => .inl) fun _ _ => .inl
    · rw [heq]
      refine h.mono _ (fun _ _ => .inl) (fun o' d hs => .inr ?_) fun _ _ => .inl
      cases hs
      refine ⟨screen.category, (h.items o screen hscreen.2.2).snoc _, ?_⟩
      show x.refItem ∈ _
      rw [(createOrderItem_created (openItem_some hx)).refItem]
      exact hmem
  | detail o d u e hd hu =>
    refine h.mono _ (fun _ _ => .inl) (fun o' d' hs => .inr ?_) fun _ _ => .inl
    cases hs
    rw [refItem_step hu]
    exact (h.presented o d hd).snoc _
  | cancelTapped p hd =>
    refine h.mono _ (fun _ _ => .inl) (fun o d hs => ?_) fun _ _ => .inl
    cases hs
  | addToBasketTapped o d u hd hu =>
    refine h.mono _ (fun _ _ => .inl) (fun o' d' hs => ?_) fun b x hx => ?_
    · cases hs
    · rw [items_added hu] at hx
      split at hx
      · rcases List.mem_append.mp hx with hx | hx
        · exact .inl hx
        · rw [List.mem_singleton.mp hx]
          exact .inr ((h.presented o d hd).snoc _)
      · exact .inl hx

/-- **Where an item comes from.** Behind every item of a basket is an earlier
tap on a category, in the tab of the outlet it was opened from, at a moment
when the tab had the outlet as open; and the item is in that category's menu. -/
theorem traced_run {s₀ s : Menus} {ls : List MenuEvent} (h₀ : (menus menuitems sort P).init s₀)
    (hr : (menus menuitems sort P).Run s₀ ls s) (b : Basket) :
    ∀ x ∈ (s.app.order b).items, EnteredFor menuitems sort P s₀ ls x.tag.menu x.refItem := by
  have hstart : Traced menuitems sort P s₀ [] s₀ := by
    rw [h₀.2]
    refine ⟨fun o screen hs => ?_, fun o d hs => ?_, fun b x hx => ?_⟩
    · cases hs
    · cases hs
    · rw [h₀.1.order] at hx
      cases hx
  have htraced : Traced menuitems sort P s₀ ls s := by
    refine hr.history (I := fun ls s => Traced menuitems sort P s₀ ls s) hstart
      fun ls s e t hls hi hs => ?_
    exact hi.step hls (sound_reachable (hls.reachable h₀)) hs.2.2
  exact htraced.basket b

/-! ## Traps -/

theorem makeAllergenLabel_none (l : Option (List String)) :
    makeAllergenLabel P l = none ↔ l = some [] := by
  match l with
  | none => simp [makeAllergenLabel]
  | some [] => simp [makeAllergenLabel]
  | some (a :: l) =>
    simp only [makeAllergenLabel, List.getElem?_cons_zero, Option.bind_eq_bind, Option.bind_some]
    split <;> simp

/-- What the screen cannot open: an option or choice that fails a cast, an
empty list of allergens, a missing name. -/
theorem openItem_none {item : Item} (hid : item.id.isSome) : openItem P item = none ↔
    createOrderItem item [] = none ∨ item.allergens = some [] ∨ item.name = none := by
  have hlabel := makeAllergenLabel_none (P := P) item.allergens
  have href : item.getImageRef = none ↔ item.name = none := by
    unfold Item.getImageRef
    rw [if_neg (Option.isSome_iff_ne_none.mp hid), Option.map_eq_none_iff]
  rw [← hlabel, ← href]
  unfold openItem
  cases createOrderItem item [] with
  | none => exact iff_of_true rfl (.inl rfl)
  | some x =>
    cases makeAllergenLabel P item.allergens with
    | none => exact iff_of_true rfl (.inr (.inl rfl))
    | some label => cases item.getImageRef <;> simp

theorem id_loadItemsFor {location category : String} {item : Item}
    (h : item ∈ loadItemsFor menuitems location category) : item.id.isSome := by
  obtain ⟨d, -, rfl⟩ := List.mem_map.mp h
  rfl

/-- **The traps of the screens.** In any run the lookups of a category, of an
ID and of its item never fail: a step traps in the code of the screens iff it
opens an item with a malformed option or choice, an empty list of allergens or
no name. -/
theorem crash_iff {s₀ s t : Menus} {ls : List MenuEvent} {e : MenuEvent}
    (h₀ : (menus menuitems sort P).init s₀) (hr : (menus menuitems sort P).Run s₀ ls s)
    (hs : (menus menuitems sort P).step s e t) :
    t.crashed = true ↔ ∃ o row screen item, e = .selectItem o row ∧ s.items o = some screen ∧
      screen.itemList.itemAt row = some item ∧
      (createOrderItem item [] = none ∨ item.allergens = some [] ∨ item.name = none) := by
  have hsound := sound_reachable (hr.reachable h₀)
  obtain ⟨-, hc, hs⟩ := hs
  have hquiet : ∀ {Q : Prop}, t.crashed = s.crashed → ¬ Q → (t.crashed = true ↔ Q) := by
    intro Q ht hQ
    rw [ht, hc]
    exact iff_of_false Bool.false_ne_true hQ
  cases hs with
  | selectItem o row screen hscreen hrow =>
    obtain ⟨item, hitem, hmem, hcase⟩ := selectItem_cases (P := P) hsound hscreen.2.2 hrow
    rcases hcase with ⟨hnone, heq⟩ | ⟨x, hx, heq⟩
    · rw [heq]
      exact iff_of_true rfl ⟨o, row, screen, item, rfl, hscreen.2.2, hitem,
        (openItem_none (id_loadItemsFor hmem)).mp hnone⟩
    · rw [heq]
      refine iff_of_false (by rw [hc]; exact Bool.false_ne_true) ?_
      rintro ⟨o', row', screen', item', he, hscreen', hitem', hbad⟩
      cases he
      obtain rfl := Option.some.inj (hscreen.2.2.symm.trans hscreen')
      obtain rfl := Option.some.inj (hitem.symm.trans hitem')
      rw [(openItem_none (id_loadItemsFor hmem)).mpr hbad] at hx
      cases hx
  | selectCategory o row hshow hrow =>
    refine hquiet ?_ fun ⟨_, _, _, _, he, _⟩ => MenuEvent.noConfusion he
    rcases s.selectCategory_cases o hrow with heq | ⟨-, c, -, screen, -, heq⟩ <;> rw [heq]
  | app e u he hu =>
    refine hquiet ?_ fun ⟨_, _, _, _, he, _⟩ => MenuEvent.noConfusion he
    unfold after
    split
    · exact hc.symm
    · rfl
  | _ => exact hquiet rfl fun ⟨_, _, _, _, he, _⟩ => MenuEvent.noConfusion he

/-! ## A coffee -/

def latteMenu : Dict (Dict Value) :=
  [("latte", [("name", .string "Latte"), ("location", .string "Cafe"), ("category", .string "Hot"),
    ("price", .integer 3)])]

/-- The document lost its name. -/
def namelessMenu : Dict (Dict Value) :=
  [("latte", [("location", .string "Cafe"), ("category", .string "Hot"), ("price", .integer 3)])]

def hotDrinks : Dict (Dict Value) := [("hot", [("name", .string "Hot"), ("location", .string "Cafe")])]

/-- Sign up and open the only category of the Cafe. -/
def toItems : List MenuEvent :=
  signUp.map .app ++ [.tab .cafe .viewDidLoad, .tab .cafe (.categoriesReply (some hotDrinks)),
    .selectCategory .cafe 0, .itemsReply .cafe true]

/-- No character joins the next one. -/
def noPrepend : Prepend := ⟨fun _ => false, fun _ _ => rfl⟩

def itemsShown (menuitems : Dict (Dict Value)) : ItemsScreen where
  location := "Cafe"
  category := "Hot"
  itemList := ({} : ItemList).loaded (some (menuQuery menuitems "Cafe" "Hot"))
  loading := false

theorem init_empty : (menus menuitems .mergeSort noPrepend).init { app := {} } :=
  ⟨App.launch_default, rfl⟩

theorem toItems_run (menuitems : Dict (Dict Value)) : ∃ s,
    (menus menuitems .mergeSort noPrepend).Run { app := {} } toItems s ∧
      s.app.trap = none ∧ s.crashed = false ∧ s.ShowsItems .cafe (itemsShown menuitems) ∧
      ∀ b, (s.app.order b).items = [] := by
  refine Exists.intro ?s (And.intro ?run ?shown)
  case run =>
    refine .cons ⟨rfl, rfl, .app _ _ (fun b x h => by cases h) rfl⟩ ?_
    refine .cons ⟨rfl, rfl, .app _ _ (fun b x h => by cases h) rfl⟩ ?_
    refine .cons ⟨rfl, rfl, .app _ _ (fun b x h => by cases h) rfl⟩ ?_
    refine .cons ⟨rfl, rfl, .tab _ _ _ (fun _ => ⟨rfl, rfl, rfl⟩) rfl⟩ ?_
    refine .cons ⟨rfl, rfl, .tab _ _ _ (fun h => by cases h) rfl⟩ ?_
    refine .cons ⟨rfl, rfl, .selectCategory _ _ ⟨rfl, rfl, rfl⟩ (by decide)⟩ ?_
    refine .cons ⟨rfl, rfl, .itemsReply _ _ _ _ rfl rfl⟩ ?_
    exact .nil _
  case shown => exact ⟨rfl, rfl, ⟨rfl, rfl, rfl⟩, fun b => by cases b <;> rfl⟩

theorem latte_presented : ∃ s d,
    (menus latteMenu .mergeSort noPrepend).Run { app := {} } (toItems ++ [.selectItem .cafe 0]) s ∧
      s.presented = some (.cafe, d) ∧ d.item.location = some "Cafe" ∧ s.app.trap = none ∧
      s.crashed = false ∧ ∀ b, (s.app.order b).items = [] := by
  obtain ⟨s, hrun, ht, hc, hshow, hempty⟩ := toItems_run latteMenu
  have hrow : 0 < (itemsShown latteMenu).itemList.numberOfItemsInSection := by decide
  exact ⟨_, _, hrun.append (.cons ⟨ht, hc, .selectItem .cafe 0 _ hshow hrow⟩ (.nil _)), rfl, rfl, ht, hc,
    hempty⟩

theorem latte_added : ∃ s t x,
    (menus latteMenu .mergeSort noPrepend).Run { app := {} } (toItems ++ [.selectItem .cafe 0]) s ∧
      (menus latteMenu .mergeSort noPrepend).step s .addToBasketTapped t ∧
      (t.app.order .cafe).items = [x] ∧ x.tag.menu = .cafe := by
  obtain ⟨s, d, hrun, hd, hloc, ht, hc, hempty⟩ := latte_presented
  obtain ⟨t, x, hstep, -, hx, hmenu, hitems⟩ := (menus_refine init_empty hrun).2 .cafe d hd ht hc
  refine ⟨s, t, x, hrun, hstep, ?_, hmenu⟩
  have hbasket : basketOf x = .cafe := by
    rw [hx]
    exact if_pos hloc
  rw [hitems, hbasket, if_pos rfl, hempty, List.nil_append]

theorem latte_traced : ∃ s x, (menus latteMenu .mergeSort noPrepend).Run { app := {} }
    (toItems ++ [.selectItem .cafe 0] ++ [.addToBasketTapped]) s ∧ x ∈ (s.app.order .cafe).items ∧
      EnteredFor latteMenu .mergeSort noPrepend { app := {} }
        (toItems ++ [.selectItem .cafe 0] ++ [.addToBasketTapped]) x.tag.menu x.refItem := by
  obtain ⟨s, d, hrun, hd, hloc, ht, hc, hempty⟩ := latte_presented
  have huid := ((sound_reachable (hrun.reachable init_empty)).presented _ _ hd).2
  have hadd : s.app.step (addEvent .cafe d) = some (s.app.fire (addEvent .cafe d)) :=
    App.step_iff.mpr ⟨ht, huid, rfl⟩
  have hall := hrun.append (.cons ⟨ht, hc, .addToBasketTapped .cafe d _ hd hadd⟩ (.nil _))
  have hmem : addedItem s.app .cafe d ∈ ((s.app.fire (addEvent .cafe d)).order .cafe).items := by
    have hbasket : basketOf d.item = .cafe := if_pos hloc
    rw [items_added hadd, hbasket, if_pos rfl]
    exact List.mem_append_right _ (List.mem_singleton_self _)
  exact ⟨_, _, hall, hmem, traced_run init_empty hall .cafe _ hmem⟩

/-- The nameless item is listed, and opening it traps. -/
theorem nameless_crashes : ∃ s t,
    (menus namelessMenu .mergeSort noPrepend).Run { app := {} } toItems s ∧
      (menus namelessMenu .mergeSort noPrepend).step s (.selectItem .cafe 0) t ∧ t.crashed = true := by
  obtain ⟨s, hrun, ht, hc, hshow, -⟩ := toItems_run namelessMenu
  have hrow : 0 < (itemsShown namelessMenu).itemList.numberOfItemsInSection := by decide
  have hstep : (menus namelessMenu .mergeSort noPrepend).step s (.selectItem .cafe 0)
      (s.selectItem noPrepend .cafe (itemsShown namelessMenu) 0) :=
    ⟨ht, hc, .selectItem .cafe 0 _ hshow hrow⟩
  refine ⟨s, _, hrun, hstep, (crash_iff init_empty hrun hstep).mpr ?_⟩
  exact ⟨.cafe, 0, _, _, rfl, hshow.2.2, rfl, .inr (.inr rfl)⟩

end Menus

end QadsCafe

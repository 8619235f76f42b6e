import Mathlib.Data.List.DropRight

/-!
# The allergen label

`makeAllergenLabel` joins the names with commas and, at the last one, takes
the comma back and writes "and". It looks at the first name before it asks if
there is one, takes two characters back also where there is no comma, and
treats the marker "no allergens" as a name unless it comes first.

`dropLast` counts grapheme clusters. The text it is applied to ends in ASCII,
so a cluster is its last scalar and the scalars of `Prepend` right before it.
-/
namespace QadsCafe

/-- The scalars that join the one after them (Grapheme_Cluster_Break=Prepend);
none is ASCII. -/
structure Prepend where
  mem : Char → Bool
  ascii : ∀ c, c.toNat < 128 → mem c = false

/-- `dropLast()` on a text that ends in ASCII. -/
def dropLastCharacter (P : Prepend) (s : String) : String :=
  String.ofList (s.toList.dropLast.rdropWhile P.mem)

/-- One turn of the loop over the names.
mirrors ItemTitleCollectionViewCell.swift:44-48 -/
def appendAllergen (P : Prepend) (count : Nat) (output : String) (e : String × Nat) : String :=
  if e.2 = count - 1 then
    dropLastCharacter P (dropLastCharacter P output) ++ " and " ++ e.1 ++ "."
  else output ++ e.1 ++ ", "

/-- mirrors ItemTitleCollectionViewCell.swift:32-51 -/
def makeAllergenLabel (P : Prepend) : Option (List String) → Option String
  | none => some "Error, no allergen data received. Please contact catering staff."
  | some allergenList => do
    let first ← allergenList[0]?
    if first = "no allergens" ∨ allergenList.isEmpty then return "No Allergens."
    return allergenList.zipIdx.foldl (appendAllergen P allergenList.length) "Contains "

/-! ## What the label should say -/

/-- "a1, ..., a(n-1) and an" -/
def named : List String → String
  | [] => ""
  | [a] => a
  | [a, b] => a ++ " and " ++ b
  | a :: as => a ++ ", " ++ named as

/-- The label that names each allergen of the list. -/
def allergenLabel (l : List String) : String :=
  let allergens := l.filter (· ≠ "no allergens")
  if allergens = [] then "No Allergens." else "Contains " ++ named allergens ++ "."

/-- The names with a comma after each. -/
def commas (l : List String) : List Char := l.flatMap fun a => a.toList ++ ", ".toList

theorem named_cons (a : String) {as : List String} (h : 2 ≤ as.length) :
    named (a :: as) = a ++ ", " ++ named as := by
  match as, h with
  | _ :: _ :: _, _ => rfl

theorem toList_named (l : List String) (b c : String) :
    (named (l ++ [b, c])).toList = commas l ++ b.toList ++ " and ".toList ++ c.toList := by
  induction l with
  | nil => simp [named, commas, String.toList_append]
  | cons a l ih =>
    rw [List.cons_append, named_cons a (by simp), String.toList_append, String.toList_append, ih]
    simp [commas]

/-- The names end with the last one. -/
theorem named_concat (l : List String) (b : String) :
    ∃ pre, (named (l ++ [b])).toList = pre ++ b.toList := by
  rcases List.eq_nil_or_concat' l with rfl | ⟨l, a, rfl⟩
  · exact ⟨[], rfl⟩
  · rw [List.append_assoc, List.singleton_append, toList_named]
    exact ⟨_, rfl⟩

/-! ## What the loop makes -/

theorem toList_foldl_commas (P : Prepend) (count : Nat) (l : List String) : ∀ (k : Nat) (s : String),
    k + l.length < count →
    ((l.zipIdx k).foldl (appendAllergen P count) s).toList = s.toList ++ commas l := by
  induction l with
  | nil => intro k s _; simp [commas]
  | cons a l ih =>
    intro k s h
    rw [List.length_cons] at h
    have hk : ¬ k = count - 1 := by omega
    rw [List.zipIdx_cons, List.foldl_cons, ih (k + 1) _ (by omega), appendAllergen, if_neg hk]
    simp [commas, String.toList_append]

theorem rdropWhile_eq_self {p : Char → Bool} {l : List Char}
    (h : ∀ c, l.getLast? = some c → p c = false) : l.rdropWhile p = l := by
  rw [List.rdropWhile_eq_self_iff]
  intro hl
  rw [h _ (List.getLast?_eq_some_getLast hl)]
  exact Bool.false_ne_true

/-- The comma and the blank are taken back, and a `Prepend` before the comma
goes with it. -/
theorem dropLast_comma (P : Prepend) {s : String} {l : List Char} (h : s.toList = l ++ ", ".toList) :
    (dropLastCharacter P (dropLastCharacter P s)).toList = l.rdropWhile P.mem := by
  have hone : (dropLastCharacter P s).toList = l ++ [','] := by
    have hdrop : s.toList.dropLast = l ++ [','] := by
      rw [h, show ", ".toList = [','] ++ [' '] from rfl, ← List.append_assoc, List.dropLast_concat]
    rw [dropLastCharacter, String.toList_ofList, hdrop]
    refine rdropWhile_eq_self fun c hc => ?_
    rw [List.getLast?_concat, Option.some.injEq] at hc
    subst hc
    exact P.ascii ',' (by decide)
  rw [dropLastCharacter, String.toList_ofList, hone, List.dropLast_concat]

/-- The text for two or more names. -/
def textOf (P : Prepend) (l : List String) (b c : String) : List Char :=
  ("Contains ".toList ++ commas l ++ b.toList).rdropWhile P.mem ++ " and ".toList ++ c.toList ++ ['.']

theorem makeAllergenLabel_of_head (P : Prepend) {a : String} {l : List String}
    (h : a ≠ "no allergens") :
    makeAllergenLabel P (some (a :: l)) =
      some (((a :: l).zipIdx).foldl (appendAllergen P (a :: l).length) "Contains ") := by
  simp only [makeAllergenLabel, List.getElem?_cons_zero, Option.bind_eq_bind, Option.bind_some,
    List.isEmpty_cons, Bool.false_eq_true, or_false, if_neg h]
  rfl

theorem makeAllergenLabel_two (P : Prepend) {l : List String} {b c : String}
    (h : (l ++ [b, c])[0]? ≠ some "no allergens") :
    ∃ text, makeAllergenLabel P (some (l ++ [b, c])) = some text ∧ text.toList = textOf P l b c := by
  obtain ⟨a, as, has⟩ : ∃ a as, l ++ [b, c] = a :: as := List.exists_cons_of_ne_nil (by simp)
  have ha : a ≠ "no allergens" := by
    intro he
    rw [has, List.getElem?_cons_zero, he] at h
    exact h rfl
  refine ⟨_, by rw [has]; exact makeAllergenLabel_of_head P ha, ?_⟩
  have hsplit : l ++ [b, c] = (l ++ [b]) ++ [c] := by simp
  rw [← has, hsplit, List.zipIdx_append, List.foldl_append]
  have hcount : 0 + (l ++ [b]).length = ((l ++ [b]) ++ [c]).length - 1 := by simp
  simp only [List.zipIdx_cons, List.zipIdx_nil, List.foldl_cons, List.foldl_nil]
  rw [appendAllergen, if_pos hcount]
  have htext := toList_foldl_commas P ((l ++ [b]) ++ [c]).length (l ++ [b]) 0 "Contains "
    (by simp)
  have hcommas : "Contains ".toList ++ commas (l ++ [b]) =
      ("Contains ".toList ++ commas l ++ b.toList) ++ ", ".toList := by
    simp [commas]
  rw [hcommas] at htext
  simp only [String.toList_append, dropLast_comma P htext, textOf]
  rfl

/-- With one name the blank and the "s" of "Contains " are taken back. -/
theorem makeAllergenLabel_one (P : Prepend) {a : String} (h : a ≠ "no allergens") :
    makeAllergenLabel P (some [a]) = some ("Contain" ++ " and " ++ a ++ ".") := by
  have hlast : ∀ {l : List Char} {x : Char}, x.toNat < 128 →
      (l ++ [x]).rdropWhile P.mem = l ++ [x] := by
    intro l x hx
    refine rdropWhile_eq_self fun c hc => ?_
    rw [List.getLast?_concat, Option.some.injEq] at hc
    exact hc ▸ P.ascii x hx
  have hs : dropLastCharacter P "Contains " = "Contains" :=
    congrArg String.ofList (hlast (l := "Contain".toList) (x := 's') (by decide))
  have hn : dropLastCharacter P "Contains" = "Contain" :=
    congrArg String.ofList (hlast (l := "Contai".toList) (x := 'n') (by decide))
  rw [makeAllergenLabel_of_head P h]
  simp [appendAllergen, hs, hn]

/-! ## When the label is right -/

/-- The name ends in a `Prepend`, which joins the comma after it. -/
def EndsInPrepend (P : Prepend) (a : String) : Prop :=
  ∃ c, a.toList.getLast? = some c ∧ P.mem c = true

/-- The lists that the loop labels right: only markers, or at least two names,
none of them the marker, the last but one not ending in a `Prepend`. -/
def Labelled (P : Prepend) (l : List String) : Prop :=
  (l ≠ [] ∧ ∀ a ∈ l, a = "no allergens") ∨
    (2 ≤ l.length ∧ "no allergens" ∉ l ∧
      ∀ b, l.dropLast.getLast? = some b → ¬ EndsInPrepend P b)

/-- Each name with its separator, in characters. -/
def weight : List String → Nat
  | [] => 0
  | a :: l => a.length + 2 + weight l

theorem weight_append (l l' : List String) : weight (l ++ l') = weight l + weight l' := by
  induction l with
  | nil => simp [weight]
  | cons a l ih => simp only [List.cons_append, weight, ih]; omega

theorem length_named_le (l : List String) : (named l).length ≤ weight l + 1 := by
  induction l with
  | nil => simp [named, weight]
  | cons a l ih =>
    match l, ih with
    | [], _ => simp [named, weight]; omega
    | [b], _ =>
      have hand : (" and " : String).length = 5 := rfl
      simp only [named, weight, String.length_append]
      omega
    | b :: c :: l, ih =>
      rw [named_cons a (by simp)]
      simp only [weight, String.length_append] at ih ⊢
      have hcomma : (", " : String).length = 2 := rfl
      omega

theorem length_commas (l : List String) : (commas l).length = weight l := by
  induction l with
  | nil => rfl
  | cons a l ih =>
    simp only [commas, weight, List.flatMap_cons, List.length_append] at ih ⊢
    rw [ih, String.length_toList]
    rfl

/-- What the label leaves out: 14 characters for each marker. -/
theorem weight_filter (l : List String) :
    weight (l.filter (· ≠ "no allergens")) + 14 * l.count "no allergens" = weight l := by
  induction l with
  | nil => rfl
  | cons a l ih =>
    by_cases ha : a = "no allergens"
    · subst ha
      have hmarker : ("no allergens" : String).length = 12 := rfl
      rw [List.filter_cons_of_neg (by simp), List.count_cons_self]
      simp only [weight] at ih ⊢
      omega
    · rw [List.filter_cons_of_pos (by simpa using ha), List.count_cons_of_ne ha]
      simp only [weight] at ih ⊢
      omega

theorem allergenLabel_all {l : List String} (h : ∀ a ∈ l, a = "no allergens") :
    allergenLabel l = "No Allergens." := by
  have hnil : l.filter (· ≠ "no allergens") = [] := by
    rw [List.filter_eq_nil_iff]
    intro a ha
    simp [h a ha]
  unfold allergenLabel
  rw [hnil, if_pos rfl]

theorem allergenLabel_some {l : List String} {a : String} (ha : a ∈ l) (h : a ≠ "no allergens") :
    allergenLabel l = "Contains " ++ named (l.filter (· ≠ "no allergens")) ++ "." := by
  have hne : l.filter (· ≠ "no allergens") ≠ [] :=
    List.ne_nil_of_mem (List.mem_filter.mpr ⟨ha, by simpa using h⟩)
  unfold allergenLabel
  rw [if_neg hne]

/-- A label with a real allergen is not "No Allergens.". -/
theorem allergenLabel_ne {l : List String} {a : String} (ha : a ∈ l) (h : a ≠ "no allergens") :
    allergenLabel l ≠ "No Allergens." := by
  rw [allergenLabel_some ha h]
  intro he
  have hhead := congrArg (fun s => s.toList.head?) he
  simp only [String.toList_append] at hhead
  have hchar : some 'C' = some 'N' := hhead
  exact absurd hchar (by decide)

/-- Short of a trap, the first name decides between the two kinds of label. -/
theorem makeAllergenLabel_marker (P : Prepend) (l : List String) :
    makeAllergenLabel P (some ("no allergens" :: l)) = some "No Allergens." := by
  simp [makeAllergenLabel]

theorem one_not_labelled (P : Prepend) {a : String} (h : a ≠ "no allergens") :
    makeAllergenLabel P (some [a]) ≠ some (allergenLabel [a]) := by
  rw [makeAllergenLabel_one P h, allergenLabel_some List.mem_cons_self h]
  have hfilter : [a].filter (· ≠ "no allergens") = [a] := by simpa using h
  rw [hfilter]
  intro he
  have hlen := congrArg String.length (Option.some.inj he)
  simp only [named, String.length_append] at hlen
  have hcontain : ("Contain" : String).length = 7 := rfl
  have hcontains : ("Contains " : String).length = 9 := rfl
  have hand : (" and " : String).length = 5 := rfl
  omega

/-! ### Two or more names -/

variable {P : Prepend} {l : List String} {b c : String}

/-- Nothing of the last but one is lost unless it ends in a `Prepend`. -/
theorem textOf_eq (h : ¬ EndsInPrepend P b) :
    textOf P l b c =
      "Contains ".toList ++ commas l ++ b.toList ++ " and ".toList ++ c.toList ++ ['.'] := by
  unfold textOf
  rw [rdropWhile_eq_self fun x hx => ?_]
  rcases List.eq_nil_or_concat' b.toList with hb | ⟨pre, y, hb⟩
  · -- an empty name leaves the blank before it
    rw [hb, List.append_nil] at hx
    have hblank : ∃ pre, "Contains ".toList ++ commas l = pre ++ [' '] := by
      rcases List.eq_nil_or_concat' l with rfl | ⟨l', a, rfl⟩
      · exact ⟨"Contains".toList, rfl⟩
      · exact ⟨"Contains ".toList ++ commas l' ++ a.toList ++ [','], by simp [commas]⟩
    obtain ⟨pre, hpre⟩ := hblank
    rw [hpre, List.getLast?_concat, Option.some.injEq] at hx
    exact hx ▸ P.ascii ' ' (by decide)
  · rw [hb, ← List.append_assoc, List.getLast?_concat, Option.some.injEq] at hx
    subst hx
    rw [← Bool.not_eq_true]
    exact fun hp => h ⟨y, by rw [hb, List.getLast?_concat], hp⟩

theorem toList_label_two (hl : "no allergens" ∉ l ++ [b, c]) :
    (allergenLabel (l ++ [b, c])).toList =
      "Contains ".toList ++ commas l ++ b.toList ++ " and ".toList ++ c.toList ++ ['.'] := by
  have hb : b ∈ l ++ [b, c] := by simp
  have hfilter : (l ++ [b, c]).filter (· ≠ "no allergens") = l ++ [b, c] := by
    rw [List.filter_eq_self]
    intro a ha
    have hne : a ≠ "no allergens" := fun he => hl (he ▸ ha)
    simpa using hne
  rw [allergenLabel_some hb fun he => hl (he ▸ hb), hfilter, String.toList_append,
    String.toList_append, toList_named]
  simp

theorem marker_not_ends (P : Prepend) : ¬ EndsInPrepend P "no allergens" := by
  rintro ⟨y, hy, hp⟩
  have hs : some 's' = some y := hy
  rw [← Option.some.inj hs, P.ascii 's' (by decide)] at hp
  cases hp

theorem getLast?_rdropWhile {p : Char → Bool} {l : List Char} {x : Char}
    (h : (l.rdropWhile p).getLast? = some x) : p x = false := by
  have hne : l.rdropWhile p ≠ [] := by
    intro he
    rw [he] at h
    cases h
  rw [List.getLast?_eq_some_getLast hne, Option.some.injEq] at h
  rw [← h]
  simpa using List.rdropWhile_last_not p l hne

/-- A `Prepend` at the end of the last but one is lost from the text, not from
the label. -/
theorem textOf_ne_of_ends (h : EndsInPrepend P b) :
    textOf P l b c ≠ (allergenLabel (l ++ [b, c])).toList := by
  have hb : b ≠ "no allergens" := fun he => marker_not_ends P (he ▸ h)
  obtain ⟨y, hy, hp⟩ := h
  have hlast : ∀ pre : List Char, (pre ++ b.toList).getLast? = some y := fun pre => by
    rw [List.getLast?_append, hy, Option.some_or]
  have hmem : b ∈ l ++ [b, c] := by simp
  rw [allergenLabel_some hmem hb, List.filter_append, String.toList_append, String.toList_append]
  intro he
  by_cases hc : c = "no allergens"
  · -- the label ends with the last but one, the text with the marker
    have hfilter : [b, c].filter (· ≠ "no allergens") = [b] := by simp [hb, hc]
    obtain ⟨pre, hpre⟩ := named_concat (l.filter (· ≠ "no allergens")) b
    rw [hfilter, hpre, ← List.append_assoc, textOf, show ".".toList = ['.'] from rfl] at he
    have htail := congrArg List.getLast? (List.append_cancel_right he)
    rw [hlast, hc, List.getLast?_append] at htail
    have hs : some 's' = some y := htail
    rw [← Option.some.inj hs, P.ascii 's' (by decide)] at hp
    cases hp
  · have hfilter : [b, c].filter (· ≠ "no allergens") = [b, c] := by simp [hb, hc]
    rw [hfilter, toList_named, textOf, show ".".toList = ['.'] from rfl] at he
    have hcut : (("Contains ".toList ++ commas l ++ b.toList).rdropWhile P.mem) =
        "Contains ".toList ++ commas (l.filter (· ≠ "no allergens")) ++ b.toList := by
      have he' := List.append_cancel_right he
      simp only [← List.append_assoc] at he'
      exact List.append_cancel_right (List.append_cancel_right he')
    have hx := getLast?_rdropWhile (hcut ▸ hlast _)
    rw [hp] at hx
    cases hx

/-- A marker is in the text, not in the label. -/
theorem textOf_ne_of_marker (hends : ¬ EndsInPrepend P b) {a : String} (ha : a ∈ l ++ [b, c])
    (hne : a ≠ "no allergens") (h : "no allergens" ∈ l ++ [b, c]) :
    textOf P l b c ≠ (allergenLabel (l ++ [b, c])).toList := by
  rw [textOf_eq hends, allergenLabel_some ha hne]
  intro he
  have hlen := congrArg List.length he
  have hname := length_named_le ((l ++ [b, c]).filter (· ≠ "no allergens"))
  have hfilter := weight_filter (l ++ [b, c])
  have hcount := List.count_pos_iff.mpr h
  have hweight : weight (l ++ [b, c]) = weight l + b.length + c.length + 4 := by
    simp only [weight_append, weight]
    omega
  simp only [List.length_append, length_commas, String.length_toList, String.length_append,
    List.length_singleton] at hlen
  have hcontains : ("Contains " : String).length = 9 := rfl
  have hand : (" and " : String).length = 5 := rfl
  have hdot : ("." : String).length = 1 := rfl
  omega

theorem two_labelled_iff (hhead : (l ++ [b, c])[0]? ≠ some "no allergens") :
    makeAllergenLabel P (some (l ++ [b, c])) = some (allergenLabel (l ++ [b, c])) ↔
      "no allergens" ∉ l ++ [b, c] ∧ ¬ EndsInPrepend P b := by
  obtain ⟨text, htext, hlist⟩ := makeAllergenLabel_two P hhead
  rw [htext, Option.some.injEq, ← String.toList_inj, hlist]
  constructor
  · intro he
    have hends : ¬ EndsInPrepend P b := fun h => textOf_ne_of_ends h he
    refine ⟨fun hmem => ?_, hends⟩
    obtain ⟨a, as, has⟩ : ∃ a as, l ++ [b, c] = a :: as := List.exists_cons_of_ne_nil (by simp)
    have hne : a ≠ "no allergens" := by
      rintro rfl
      exact hhead (by rw [has]; rfl)
    exact textOf_ne_of_marker hends (has ▸ List.mem_cons_self) hne hmem he
  · rintro ⟨hmem, hends⟩
    rw [textOf_eq hends, toList_label_two hmem]

/-- **The allergen label** is the one that names every allergen iff the list is
not empty and holds only the marker, or has at least two names and no marker.
(And the last but one does not end in a `Prepend`.) -/
theorem names_allergens_iff (P : Prepend) (l : List String) :
    makeAllergenLabel P (some l) = some (allergenLabel l) ↔ Labelled P l := by
  unfold Labelled
  rcases List.eq_nil_or_concat' l with rfl | ⟨l, c, rfl⟩
  · simp [makeAllergenLabel]
  by_cases hhead : (l ++ [c])[0]? = some "no allergens"
  · obtain ⟨as, has⟩ : ∃ as, l ++ [c] = "no allergens" :: as := by
      obtain ⟨a, as, has⟩ : ∃ a as, l ++ [c] = a :: as := List.exists_cons_of_ne_nil (by simp)
      rw [has, List.getElem?_cons_zero, Option.some.injEq] at hhead
      exact ⟨as, hhead ▸ has⟩
    rw [has, makeAllergenLabel_marker]
    constructor
    · intro he
      refine .inl ⟨List.cons_ne_nil _ _, fun a ha => ?_⟩
      by_contra hne
      exact allergenLabel_ne ha hne (Option.some.inj he).symm
    · rintro (⟨-, hall⟩ | ⟨-, hno, -⟩)
      · rw [allergenLabel_all hall]
      · exact absurd List.mem_cons_self hno
  · have hnotall : ¬ ∀ a ∈ l ++ [c], a = "no allergens" := by
      intro hall
      obtain ⟨a, as, has⟩ : ∃ a as, l ++ [c] = a :: as := List.exists_cons_of_ne_nil (by simp)
      rw [has] at hhead hall
      exact hhead (congrArg some (hall a List.mem_cons_self))
    rcases List.eq_nil_or_concat' l with rfl | ⟨l, b, rfl⟩
    · have hne : c ≠ "no allergens" := fun he => hhead (congrArg some he)
      simp [one_not_labelled P hne, hne]
    · have hsplit : (l ++ [b]) ++ [c] = l ++ [b, c] := by simp
      have hlast : (l ++ [b, c]).dropLast.getLast? = some b := by
        rw [← hsplit, List.dropLast_concat, List.getLast?_concat]
      rw [hsplit] at hhead hnotall ⊢
      rw [two_labelled_iff hhead, hlast]
      constructor
      · rintro ⟨hno, hends⟩
        exact .inr ⟨by simp, hno, fun b' hb' => Option.some.inj hb' ▸ hends⟩
      · rintro (⟨-, hall⟩ | ⟨-, hno, hends⟩)
        · exact absurd hall hnotall
        · exact ⟨hno, hends b rfl⟩

/-- No scalar joins the one after it. -/
def noPrepend : Prepend := ⟨fun _ => false, fun _ _ => rfl⟩

/-- **The label traps on an empty list**, misspells a single allergen and names
the marker beside a real one. -/
theorem label_wrong :
    makeAllergenLabel noPrepend (some []) = none ∧
    makeAllergenLabel noPrepend (some ["nuts"]) = some "Contain and nuts." ∧
    makeAllergenLabel noPrepend (some ["nuts", "no allergens"]) =
      some "Contains nuts and no allergens." ∧
    allergenLabel [] = "No Allergens." ∧ allergenLabel ["nuts"] = "Contains nuts." ∧
    allergenLabel ["nuts", "no allergens"] = "Contains nuts." := by
  decide +kernel

end QadsCafe

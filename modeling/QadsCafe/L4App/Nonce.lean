import QadsCafe.Core.Sampling

/-!
# The sign-in nonce

`randomNonceString` draws random bytes sixteen at a time and appends the
character of each byte below the size of the character set until it has as
many as asked for. `random i` is the `i`th byte that `SecRandomCopyBytes`
yields; an error of it is a fatal one.

`nonce_exact`: given enough small bytes the loop ends, with the characters of
the first of them and of no others.
-/
namespace QadsCafe

open Core

/-- mirrors SignInViewController.swift:231-232 -/
def charset : List Char := "0123456789ABCDEFGHIJKLMNOPQRSTUVXYZabcdefghijklmnopqrstuvwxyz-._".toList

structure Nonce where
  result : String := ""
  remainingLength : Int

namespace Nonce

/-- One byte; `none` is an index out of range.
mirrors SignInViewController.swift:246-255 -/
def consume (s : Nonce) (random : UInt8) : Option Nonce :=
  if s.remainingLength = 0 then some s
  else if random.toNat < charset.length then
    charset[random.toNat]?.map fun c =>
      { result := s.result.push c, remainingLength := s.remainingLength - 1 }
  else some s

/-- One turn of the `while` loop, the one after `rounds` others.
mirrors SignInViewController.swift:236-255 -/
def round (random : ℕ → UInt8) (rounds : ℕ) (s : Nonce) : Option Nonce :=
  (block random (16 * rounds) 16).foldlM consume s

end Nonce

inductive NonceOutcome where
  | trapped
  | unfinished
  | returned (result : String) (rounds : ℕ)
  deriving DecidableEq

/-- At most `fuel` tests of the loop condition.
mirrors SignInViewController.swift:236-258 -/
def whileRemaining (random : ℕ → UInt8) : (fuel rounds : ℕ) → Nonce → NonceOutcome
  | 0, _, _ => .unfinished
  | fuel + 1, rounds, s =>
    if s.remainingLength > 0 then
      match s.round random rounds with
      | none => .trapped
      | some s => whileRemaining random fuel (rounds + 1) s
    else .returned s.result rounds

/-- mirrors SignInViewController.swift:229-258 -/
def randomNonceString (random : ℕ → UInt8) (length : Int) (fuel : ℕ) : NonceOutcome :=
  if length > 0 then whileRemaining random fuel 0 { remainingLength := length } else .trapped

/-- The byte is accepted. -/
def accepts (b : UInt8) : Bool := b.toNat < charset.length

/-! ## One round -/

/-- The state with the bytes `p.1` taken and `p.2` more wanted. -/
def render (p : List UInt8 × ℕ) : Nonce where
  result := String.ofList (p.1.filterMap fun b => charset[b.toNat]?)
  remainingLength := p.2

theorem ofList_push (l : List Char) (c : Char) :
    (String.ofList l).push c = String.ofList (l ++ [c]) := by
  rw [← String.toList_inj, String.toList_push, String.toList_ofList, String.toList_ofList]

theorem consume_render (p : List UInt8 × ℕ) (b : UInt8) :
    (render p).consume b = some (render (collect accepts p b)) := by
  obtain ⟨bs, n⟩ := p
  unfold Nonce.consume collect
  by_cases hn : n = 0
  · simp [render, hn]
  · have hn' : ¬ (n : Int) = 0 := by omega
    by_cases hb : b.toNat < charset.length
    · have hacc : accepts b = true := decide_eq_true hb
      have hchar : charset[b.toNat]? = some charset[b.toNat] := List.getElem?_eq_getElem hb
      have hone : ((n - 1 : ℕ) : Int) = (n : Int) - 1 := by omega
      simp only [render, hn, hn', if_false, if_true, hb, hacc, hchar, Option.map_some,
        List.filterMap_append, List.filterMap_cons, List.filterMap_nil, hone, ofList_push]
    · have hacc : ¬ accepts b = true := by simpa [accepts] using hb
      simp [render, hn, hb, hacc]

theorem foldlM_consume (bytes : List UInt8) : ∀ p : List UInt8 × ℕ,
    bytes.foldlM Nonce.consume (render p) = some (render (bytes.foldl (collect accepts) p)) := by
  induction bytes with
  | nil => intro p; rfl
  | cons b bytes ih =>
    intro p
    rw [List.foldlM_cons, consume_render, List.foldl_cons, ← ih]
    rfl

/-! ## The loop -/

/-- The loop after some rounds, when `n` characters are asked for. -/
def afterRounds (random : ℕ → UInt8) (n rounds : ℕ) : Nonce :=
  render (sampled accepts random n (16 * rounds))

theorem afterRounds_zero (random : ℕ → UInt8) (n : ℕ) :
    afterRounds random n 0 = { remainingLength := n } := by
  simp [afterRounds, sampled, accepted, render]

/-- **One round.** -/
theorem round_afterRounds (random : ℕ → UInt8) (n rounds : ℕ) :
    (afterRounds random n rounds).round random rounds = some (afterRounds random n (rounds + 1)) := by
  unfold Nonce.round afterRounds
  rw [foldlM_consume, foldl_collect_block]
  rfl

/-- **The loop** ends after round `last`, the first with enough bytes, if there
is fuel for it. -/
theorem whileRemaining_eq {random : ℕ → UInt8} {n last : ℕ}
    (henough : n ≤ (accepted accepts random (16 * last)).length)
    (hfirst : ∀ j < last, (accepted accepts random (16 * j)).length < n) (fuel : ℕ) :
    ∀ d rounds : ℕ, rounds + d = last →
      whileRemaining random fuel rounds (afterRounds random n rounds) =
        if d < fuel then .returned (afterRounds random n last).result last else .unfinished := by
  induction fuel with
  | zero => intro d rounds _; rfl
  | succ fuel ih =>
    intro d rounds hd
    have hrem : (afterRounds random n rounds).remainingLength =
        ((n - (accepted accepts random (16 * rounds)).length : ℕ) : Int) := rfl
    unfold whileRemaining
    rw [hrem]
    cases d with
    | zero =>
      obtain rfl : rounds = last := hd
      rw [if_neg (by omega), if_pos (by omega)]
    | succ d =>
      have hlt := hfirst rounds (by omega)
      rw [if_pos (by omega), round_afterRounds]
      dsimp only
      rw [ih d (rounds + 1) (by omega)]
      simp only [Nat.add_lt_add_iff_right]

/-! ## The character set -/

theorem nodup_charset : charset.Nodup := by decide

theorem length_charset : charset.length = 64 := by decide

/-- Each character has one accepted byte value. -/
theorem unique_byte {c : Char} (hc : c ∈ charset) :
    ∃! b : UInt8, accepts b = true ∧ charset[b.toNat]? = some c := by
  obtain ⟨i, hi⟩ := List.mem_iff_getElem?.mp hc
  have hlt : i < charset.length := (List.getElem?_eq_some_iff.mp hi).1
  have hlen := length_charset
  have hnat : (UInt8.ofNat i).toNat = i := by
    rw [UInt8.toNat_ofNat']
    omega
  refine ⟨UInt8.ofNat i, ⟨?_, ?_⟩, ?_⟩
  · unfold accepts
    rw [hnat]
    exact decide_eq_true hlt
  · show charset[(UInt8.ofNat i).toNat]? = some c
    rw [hnat]
    exact hi
  · rintro b ⟨-, hb⟩
    have hidx : b.toNat = i :=
      (List.getElem?_inj (List.getElem?_eq_some_iff.mp hb).1 nodup_charset).mp (hb.trans hi.symm)
    rw [← UInt8.toNat_inj, hnat]
    exact hidx

/-- Every accepted byte has its character. -/
theorem chars_of_accepted {bs : List UInt8} (h : ∀ b ∈ bs, accepts b = true) :
    (bs.filterMap fun b => charset[b.toNat]?).map some = bs.map fun b => charset[b.toNat]? := by
  induction bs with
  | nil => rfl
  | cons b bs ih =>
    have hb : b.toNat < charset.length := of_decide_eq_true (h b List.mem_cons_self)
    have htl := ih fun a ha => h a (List.mem_cons_of_mem _ ha)
    rw [List.filterMap_cons, List.getElem?_eq_getElem hb, List.map_cons, List.map_cons, htl,
      List.getElem?_eq_getElem hb]

/-- **The nonce.** If the stream holds at least `n` bytes below the size of the
character set, the loop ends with enough fuel, after the first round that
makes `n` of them; its result is the characters of the first `n`, wherever one
stops counting them, and it never indexes out of the set. Every character of
the set has the same number of byte values, one. -/
theorem nonce_exact (random : ℕ → UInt8) {n : ℕ} (hn : 0 < n)
    (h : ∃ k, n ≤ (accepted accepts random k).length) :
    ∃ result rounds,
      (∀ fuel, randomNonceString random n fuel =
        if rounds < fuel then .returned result rounds else .unfinished) ∧
      result.length = n ∧
      (∀ k, n ≤ (accepted accepts random k).length → result.toList.map some =
        ((accepted accepts random k).take n).map fun b => charset[b.toNat]?) ∧
      n ≤ (accepted accepts random (16 * rounds)).length ∧
      (∀ j < rounds, (accepted accepts random (16 * j)).length < n) ∧
      ∀ c ∈ charset, ∃! b : UInt8, accepts b = true ∧ charset[b.toNat]? = some c := by
  obtain ⟨last, henough, hfirst⟩ := exists_first_round (b := 16) (by omega) h
  have hresult : (afterRounds random n last).result.toList.map some =
      ((accepted accepts random (16 * last)).take n).map fun b => charset[b.toNat]? := by
    have hacc : ∀ b ∈ (accepted accepts random (16 * last)).take n, accepts b = true :=
      fun b hb => (List.mem_filter.mp (List.mem_of_mem_take hb)).2
    rw [← chars_of_accepted hacc]
    exact congrArg (List.map some) String.toList_ofList
  refine ⟨(afterRounds random n last).result, last, fun fuel => ?_, ?_, fun k hk => ?_, henough,
    hfirst, fun c hc => unique_byte hc⟩
  · have hpos : (n : Int) > 0 := by omega
    unfold randomNonceString
    rw [if_pos hpos, ← afterRounds_zero, whileRemaining_eq henough hfirst fuel last 0 (by omega)]
  · have hlen := congrArg List.length hresult
    rw [List.length_map, List.length_map, List.length_take_of_le henough, String.length_toList] at hlen
    exact hlen
  · rw [hresult, take_accepted henough hk]

/-- Twenty characters from the bytes 0, 3, 6 and so on. -/
theorem nonce_exact_twenty : ∃ result rounds,
    randomNonceString (fun i => UInt8.ofNat (3 * i)) 20 (rounds + 1) = .returned result rounds ∧
      result.length = 20 := by
  have henough : ∃ k, 20 ≤ (accepted accepts (fun i => UInt8.ofNat (3 * i)) k).length :=
    ⟨32, by decide +kernel⟩
  obtain ⟨result, rounds, hreturns, hlen, -⟩ := nonce_exact _ (by decide) henough
  exact ⟨result, rounds, (hreturns _).trans (if_pos (Nat.lt_succ_self _)), hlen⟩

end QadsCafe

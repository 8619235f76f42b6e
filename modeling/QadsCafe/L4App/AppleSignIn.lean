import QadsCafe.Core.Hex
import QadsCafe.Core.LTS
import QadsCafe.L4App.Nonce

/-!
# The nonce of an Apple sign-in

Each tap on the Apple button draws a nonce, sends its hash with the request
and keeps the nonce itself in `currentNonce`, a variable of the file that the
next tap overwrites. An authorization comes back with an identity token that
names the hash; the delegate pairs the token with the nonce kept by then, and
Firebase takes the pair iff the hashes agree.

Requests are answered in any order or never; a launch drops them. What is not
of this repository is `Services`: the digest, and the claim that Firebase
reads from a token. `AppleSignIn.made` is ghost state, as is
`AppleRequest.raw`: the requests of this launch, and what was drawn for one.

Results:
* `randomNonceString_drawn`: a nonce is 32 characters of the set, and drawing
  one traps nowhere.
* `credential_verified`: the delegate's `fatalError` is out of reach, and the
  token of a request is taken iff the last request made has the same digest.
-/
namespace QadsCafe

open Core

/-- `SHA256.hash(data:)`, and the `nonce` claim of an identity token. -/
structure Services where
  hash : List UInt8 → List UInt8
  claim : String → Option String

variable (S : Services)

/-- The digest of a nonce. -/
def Services.digest (input : String) : List UInt8 := S.hash input.toUTF8.toList

/-- mirrors SignInViewController.swift:266-274 -/
def sha256 (input : String) : String := hexOf (S.digest input)

structure AppleRequest where
  nonce : String
  raw : String

structure AppleCredential where
  idToken : String
  rawNonce : String

/-- Firebase compares the hash of the nonce with the one in the token. -/
def AppleCredential.Verifies (c : AppleCredential) : Prop :=
  S.claim c.idToken = some (sha256 S c.rawNonce)

structure AppleSignIn where
  currentNonce : Option String := none
  pending : List AppleRequest := []
  credentials : List AppleCredential := []
  fatalError : Bool := false
  made : List AppleRequest := []

namespace AppleSignIn

/-- A tap draws its own random bytes. -/
inductive Event where
  | launch
  | handleSignInWithAppleTapped (random : ℕ → UInt8) (fuel : ℕ)
  | didComplete (i : ℕ) (identityToken : Option ByteArray)

/-- mirrors SignInViewController.swift:48-69 -/
def createAppleIDRequest (s : AppleSignIn) (random : ℕ → UInt8) (fuel : ℕ) : Option AppleSignIn :=
  match randomNonceString random 32 fuel with
  | .unfinished => none
  | .trapped => some { s with fatalError := true }
  | .returned nonce _ =>
    some { s with
      currentNonce := some nonce
      pending := s.pending ++ [⟨sha256 S nonce, nonce⟩]
      made := s.made ++ [⟨sha256 S nonce, nonce⟩] }

/-- mirrors SignInViewController.swift:154-173 -/
def didCompleteWithAuthorization (s : AppleSignIn) (identityToken : Option ByteArray) : AppleSignIn :=
  match s.currentNonce with
  | none => { s with fatalError := true }
  | some nonce =>
    match identityToken.bind String.fromUTF8? with
    | none => s
    | some idTokenString =>
      { s with credentials := s.credentials ++ [{ idToken := idTokenString, rawNonce := nonce }] }

/-- The `i`th request is not in flight any more. -/
def answered (s : AppleSignIn) (i : ℕ) : AppleSignIn := { s with pending := s.pending.eraseIdx i }

def step (s : AppleSignIn) : Event → Option AppleSignIn
  | .launch => some { credentials := s.credentials }
  | .handleSignInWithAppleTapped random fuel =>
    if s.fatalError then none else s.createAppleIDRequest S random fuel
  | .didComplete i identityToken =>
    if s.fatalError then none
    else s.pending[i]?.map fun _ => (s.answered i).didCompleteWithAuthorization identityToken

end AppleSignIn

def appleSignIn : LTS AppleSignIn AppleSignIn.Event := LTS.ofFn (· = {}) (AppleSignIn.step S)

/-! ## What is drawn -/

/-- The length that `createAppleIDRequest` asks for, of the set's characters. -/
def Drawn (nonce : String) : Prop := nonce.length = 32 ∧ ∀ c ∈ nonce.toList, c ∈ charset

theorem whileRemaining_returned (random : ℕ → UInt8) (n fuel : ℕ) :
    ∀ rounds : ℕ, whileRemaining random fuel rounds (afterRounds random n rounds) = .unfinished ∨
      ∃ last, whileRemaining random fuel rounds (afterRounds random n rounds) =
        .returned (afterRounds random n last).result last ∧
        n ≤ (accepted accepts random (16 * last)).length := by
  induction fuel with
  | zero => exact fun _ => .inl rfl
  | succ fuel ih =>
    intro rounds
    have hrem : (afterRounds random n rounds).remainingLength =
        ((n - (accepted accepts random (16 * rounds)).length : ℕ) : Int) := rfl
    unfold whileRemaining
    split
    · rw [round_afterRounds]
      exact ih (rounds + 1)
    · rename_i hle
      rw [hrem] at hle
      exact .inr ⟨rounds, rfl, by omega⟩

/-- **The nonce** of a request. -/
theorem randomNonceString_drawn (random : ℕ → UInt8) (fuel : ℕ) :
    randomNonceString random 32 fuel = .unfinished ∨
      ∃ nonce rounds, randomNonceString random 32 fuel = .returned nonce rounds ∧ Drawn nonce := by
  have hloop := whileRemaining_returned random 32 fuel 0
  rw [afterRounds_zero] at hloop
  have hstart : randomNonceString random 32 fuel =
      whileRemaining random fuel 0 { remainingLength := ((32 : ℕ) : Int) } := rfl
  rw [hstart]
  rcases hloop with hunfinished | ⟨last, hreturned, henough⟩
  · exact .inl hunfinished
  · refine .inr ⟨_, last, hreturned, ?_⟩
    have htext : (afterRounds random 32 last).result.toList =
        ((accepted accepts random (16 * last)).take 32).filterMap fun b => charset[b.toNat]? :=
      String.toList_ofList
    have hacc : ∀ b ∈ (accepted accepts random (16 * last)).take 32, accepts b = true :=
      fun b hb => (List.mem_filter.mp (List.mem_of_mem_take hb)).2
    have hlen := congrArg List.length (chars_of_accepted hacc)
    rw [List.length_map, List.length_map, List.length_take_of_le henough] at hlen
    refine ⟨?_, fun c hc => ?_⟩
    · rw [← String.length_toList, htext, hlen]
    · rw [htext] at hc
      obtain ⟨b, -, hb⟩ := List.mem_filterMap.mp hc
      exact List.mem_of_getElem? hb

/-! ## Every run -/

namespace AppleSignIn

/-- The requests were drawn, and the nonce that is kept is that of the last one. -/
structure Asked (s : AppleSignIn) : Prop where
  alive : s.fatalError = false
  drawn : ∀ r ∈ s.pending, r.nonce = sha256 S r.raw ∧ Drawn r.raw
  kept : s.currentNonce = s.made.getLast?.map AppleRequest.raw
  made : s.pending ≠ [] → s.made ≠ []

variable {S}

theorem asked_tapped {s t : AppleSignIn} {random : ℕ → UInt8} {fuel : ℕ} (h : Asked S s)
    (hs : s.createAppleIDRequest S random fuel = some t) : Asked S t := by
  unfold createAppleIDRequest at hs
  rcases randomNonceString_drawn random fuel with hn | ⟨nonce, rounds, hn, hdrawn⟩
  · rw [hn] at hs
    cases hs
  · rw [hn] at hs
    cases hs
    refine ⟨h.alive, fun r hr => ?_, ?_, fun _ => List.append_ne_nil_of_right_ne_nil _ (List.cons_ne_nil _ _)⟩
    · rcases List.mem_append.mp hr with hr | hr
      · exact h.drawn r hr
      · rw [List.mem_singleton.mp hr]
        exact ⟨rfl, hdrawn⟩
    · simp

/-- With a request to answer there is a nonce. -/
theorem Asked.last {s : AppleSignIn} (h : Asked S s) {i : ℕ} {r : AppleRequest}
    (hi : s.pending[i]? = some r) :
    ∃ last, s.made.getLast? = some last ∧ s.currentNonce = some last.raw := by
  have hne := h.made (List.ne_nil_of_mem (List.mem_of_getElem? hi))
  refine ⟨s.made.getLast hne, List.getLast?_eq_some_getLast hne, ?_⟩
  rw [h.kept, List.getLast?_eq_some_getLast hne]
  rfl

/-- What an authorization does: a credential if it comes with a token that is
text, and nothing else. -/
theorem didComplete_eq {s : AppleSignIn} {nonce : String} (hn : s.currentNonce = some nonce)
    (identityToken : Option ByteArray) :
    s.didCompleteWithAuthorization identityToken = { s with
      credentials := s.credentials ++
        ((identityToken.bind String.fromUTF8?).map fun text => ⟨text, nonce⟩).toList } := by
  unfold didCompleteWithAuthorization
  rw [hn]
  dsimp only
  split
  · rename_i hnone
    rw [hnone, Option.map_none, Option.toList_none, List.append_nil, ← hn]
  · rename_i text htext
    rw [htext]
    rfl

theorem asked_launch (credentials : List AppleCredential) : Asked S { credentials := credentials } := by
  refine ⟨rfl, fun r hr => ?_, rfl, fun hne => absurd rfl hne⟩
  cases hr

theorem asked_reachable {s : AppleSignIn} (h : (appleSignIn S).Reachable s) : Asked S s := by
  refine h.invariant (I := Asked S) ?_ fun s e t _ hi hs => ?_
  · rintro s rfl
    exact asked_launch []
  · have hs' : s.step S e = some t := hs
    cases e with
    | launch =>
      cases hs'
      exact asked_launch s.credentials
    | handleSignInWithAppleTapped random fuel =>
      rw [step, if_neg (by simp [hi.alive])] at hs'
      exact asked_tapped hi hs'
    | didComplete i identityToken =>
      rw [step, if_neg (by simp [hi.alive])] at hs'
      obtain ⟨r, hr, rfl⟩ := Option.map_eq_some_iff.mp hs'
      obtain ⟨last, -, hkept⟩ := hi.last hr
      rw [didComplete_eq (s := s.answered i) hkept]
      refine ⟨hi.alive, fun q hq => hi.drawn q (List.eraseIdx_subset hq), hi.kept, fun hne => ?_⟩
      exact hi.made (List.ne_nil_of_mem (List.mem_of_getElem? hr))

/-- **The exchange.** In every run nothing traps, and a request carries the hash
of a nonce drawn for it. An answer hands over its token, if that is text, with
the nonce of the last request made; where the token names the hash of the
request it answers, Firebase takes it iff the two nonces have one digest. -/
theorem credential_verified {s : AppleSignIn} (h : (appleSignIn S).Reachable s) :
    s.fatalError = false ∧ (∀ r ∈ s.pending, r.nonce = sha256 S r.raw ∧ Drawn r.raw) ∧
    ∀ i r t identityToken, s.pending[i]? = some r →
      s.step S (.didComplete i identityToken) = some t →
      t.fatalError = false ∧ ∃ last, s.made.getLast? = some last ∧
        t.credentials = s.credentials ++
          ((identityToken.bind String.fromUTF8?).map fun text => ⟨text, last.raw⟩).toList ∧
        ∀ text, S.claim text = some r.nonce →
          (AppleCredential.Verifies S ⟨text, last.raw⟩ ↔ S.digest last.raw = S.digest r.raw) := by
  have hask := asked_reachable h
  refine ⟨hask.alive, hask.drawn, fun i r t identityToken hi hs => ?_⟩
  obtain ⟨last, hlast, hkept⟩ := hask.last hi
  obtain ⟨hnonce, -⟩ := hask.drawn r (List.mem_of_getElem? hi)
  rw [step, if_neg (by simp [hask.alive]), hi, Option.map_some,
    didComplete_eq (s := s.answered i) hkept] at hs
  cases hs
  refine ⟨hask.alive, last, hlast, rfl, fun text hclaim => ?_⟩
  rw [AppleCredential.Verifies, hclaim, hnonce, Option.some.injEq, sha256, sha256, hexOf_inj]
  exact eq_comm

/-- What SHA-256 makes of thirty-two zeros, and of thirty-two ones. -/
def zerosAndOnes : Services where
  hash bytes :=
    if bytes = "11111111111111111111111111111111".toUTF8.toList then
      bytesOf "8a83665f3798727f14f92ad0e6c99fdab08ee731d6cd644c131223fd2f4fed2a".toList
    else bytesOf "84e0c0eafaa95a34c293f278ac52e45ce537bab5e752a00e6959a13ae103b65a".toList
  claim _ := some "84e0c0eafaa95a34c293f278ac52e45ce537bab5e752a00e6959a13ae103b65a"

/-- A second tap before the first request is answered: its token is not taken. -/
theorem credential_verified_overlapping : ∃ s t, (appleSignIn zerosAndOnes).Run {}
      [.handleSignInWithAppleTapped (fun _ => 0) 3, .handleSignInWithAppleTapped (fun _ => 1) 3] s ∧
    s.step zerosAndOnes (.didComplete 0 (some "token".toUTF8)) = some t ∧
    ∃ c, t.credentials = [c] ∧ ¬ c.Verifies zerosAndOnes := by
  obtain ⟨s, hrun, r, last, hi, hlast, hnone, hnonce, hne, t, hs⟩ :
      ∃ s, (appleSignIn zerosAndOnes).Run {}
        [.handleSignInWithAppleTapped (fun _ => 0) 3, .handleSignInWithAppleTapped (fun _ => 1) 3] s ∧
      ∃ r last, s.pending[0]? = some r ∧ s.made.getLast? = some last ∧ s.credentials = [] ∧
        zerosAndOnes.claim "token" = some r.nonce ∧
        zerosAndOnes.digest last.raw ≠ zerosAndOnes.digest r.raw ∧
        ∃ t, s.step zerosAndOnes (.didComplete 0 (some "token".toUTF8)) = some t := by
    refine ⟨_, LTS.run_of_exec rfl, _, _, rfl, rfl, rfl, ?_, ?_, _, rfl⟩
    · decide +kernel
    · decide +kernel
  obtain ⟨-, last', hlast', hcred, hiff⟩ :=
    (credential_verified (hrun.reachable rfl)).2.2 0 r t _ hi hs
  rw [hlast] at hlast'
  cases hlast'
  rw [hnone, List.nil_append, Option.bind_some, show String.fromUTF8? "token".toUTF8 = some "token" by
    decide +kernel] at hcred
  exact ⟨s, t, hrun, hs, _, hcred, fun hv => hne ((hiff "token" hnonce).mp hv)⟩

end AppleSignIn

end QadsCafe

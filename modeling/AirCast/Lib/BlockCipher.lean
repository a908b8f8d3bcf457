import Mathlib

/-! # Block ciphers in rounds and their modes

A cipher of rounds substitutes, mixes and adds a round key, and its inverse runs through the keys
the other way with the steps in the same order; the keys between the first and the last are mixed
back for it.  Over any cipher, chained blocks come back when they are decrypted, and in counter mode
the bytes depend on their place in the stream only, however the stream is cut into calls. -/

set_option autoImplicit false

namespace AirCast.BlockCipher

section rounds

variable {β : Type} (add : β → β → β) (sub mix : β → β)

/-- Full rounds with the keys from `start` on. -/
def forwardRounds (key : ℕ → β) (start : ℕ) : ℕ → β → β
  | 0, x => x
  | count + 1, x => add (mix (sub (forwardRounds key start count x))) (key (start + count))

/-- Full rounds with the keys from `start + count - 1` down. -/
def backwardRounds (key : ℕ → β) (start : ℕ) : ℕ → β → β
  | 0, x => x
  | count + 1, x => backwardRounds key start count (add (mix (sub x)) (key (start + count)))

def encipher (key : ℕ → β) (rounds : ℕ) (x : β) : β :=
  add (sub (forwardRounds add sub mix key 1 (rounds - 1) (add x (key 0)))) (key rounds)

def decipher (key : ℕ → β) (rounds : ℕ) (x : β) : β :=
  add (sub (backwardRounds add sub mix key 1 (rounds - 1) (add x (key rounds)))) (key 0)

theorem forwardRounds_congr {key key' : ℕ → β} {start : ℕ} (count : ℕ)
    (keys : ∀ i < count, key (start + i) = key' (start + i)) (x : β) :
    forwardRounds add sub mix key start count x = forwardRounds add sub mix key' start count x := by
  induction count with
  | zero => rfl
  | succ count ih =>
      rw [forwardRounds, ih fun i inside => keys i (Nat.lt_succ_of_lt inside),
        keys count (Nat.lt_succ_self _), forwardRounds]

theorem encipher_congr {key key' : ℕ → β} {rounds : ℕ} (keys : ∀ i ≤ rounds, key i = key' i)
    (x : β) : encipher add sub mix key rounds x = encipher add sub mix key' rounds x := by
  rw [encipher, keys 0 (Nat.zero_le _), keys rounds le_rfl, encipher]
  by_cases some_ : 0 < rounds
  · rw [forwardRounds_congr add sub mix _ fun i inside => keys (1 + i) (by omega)]
  · rw [show rounds - 1 = 0 by omega]
    rfl

variable {add sub mix} {sub' mix' : β → β}

theorem forwardRounds_front (key : ℕ → β) (count : ℕ) : ∀ (start : ℕ) (x : β),
    forwardRounds add sub mix key start (count + 1) x =
      forwardRounds add sub mix key (start + 1) count (add (mix (sub x)) (key start)) := by
  induction count with
  | zero => intro start x; rfl
  | succ count ih =>
      intro start x
      rw [forwardRounds, ih, forwardRounds, Nat.add_right_comm start 1 count]
      rfl

theorem backwardRounds_forwardRounds (cancel : ∀ a b, add (add a b) b = a)
    (unsub : ∀ a, sub' (sub a) = a) (unmix : ∀ a, mix' (mix a) = a)
    (linear : ∀ a b, mix' (add a b) = add (mix' a) (mix' b)) {key key' : ℕ → β} {start : ℕ}
    (count : ℕ) (keys : ∀ i < count, key' (start + i) = mix' (key (start + i))) (x : β) :
    backwardRounds add sub' mix' key' start count
      (sub (forwardRounds add sub mix key start count x)) = sub x := by
  induction count with
  | zero => rfl
  | succ count ih =>
      have step : add (mix' (sub' (sub (add (mix (sub (forwardRounds add sub mix key start count
          x))) (key (start + count)))))) (key' (start + count)) =
            sub (forwardRounds add sub mix key start count x) := by
        rw [unsub, linear, unmix, keys count (Nat.lt_succ_self _), cancel]
      rw [backwardRounds, forwardRounds, step]
      exact ih fun i inside => keys i (Nat.lt_succ_of_lt inside)

theorem decipher_encipher (cancel : ∀ a b, add (add a b) b = a) (unsub : ∀ a, sub' (sub a) = a)
    (unmix : ∀ a, mix' (mix a) = a) (linear : ∀ a b, mix' (add a b) = add (mix' a) (mix' b))
    {key key' : ℕ → β} {rounds : ℕ} (first : key' 0 = key 0) (last : key' rounds = key rounds)
    (keys : ∀ i, 0 < i → i < rounds → key' i = mix' (key i)) (x : β) :
    decipher add sub' mix' key' rounds (encipher add sub mix key rounds x) = x := by
  rw [decipher, encipher, last, cancel,
    backwardRounds_forwardRounds cancel unsub unmix linear _ fun i inside =>
      keys (1 + i) (by omega) (by omega),
    unsub, first, cancel]

end rounds

section chaining

variable {β : Type} (add : β → β → β) (cipher : β → β)

def chain : β → List β → List β × β
  | carried, [] => ([], carried)
  | carried, x :: rest =>
      let code := cipher (add x carried)
      let behind := chain code rest
      (code :: behind.1, behind.2)

def unchain : β → List β → List β × β
  | carried, [] => ([], carried)
  | carried, code :: rest =>
      let behind := unchain code rest
      (add (cipher code) carried :: behind.1, behind.2)

theorem length_chain (blocks : List β) : ∀ carried : β,
    (chain add cipher carried blocks).1.length = blocks.length := by
  induction blocks with
  | nil => intro carried; rfl
  | cons x rest ih => intro carried; rw [chain, List.length_cons, ih, List.length_cons]

variable {add cipher} {inverse : β → β}

theorem unchain_chain (cancel : ∀ a b, add (add a b) b = a)
    (inverts : ∀ x, inverse (cipher x) = x) (blocks : List β) : ∀ carried : β,
    unchain add inverse carried (chain add cipher carried blocks).1 =
      (blocks, (chain add cipher carried blocks).2) := by
  induction blocks with
  | nil => intro carried; rfl
  | cons x rest ih =>
      intro carried
      rw [chain]
      dsimp only
      rw [unchain, ih]
      dsimp only
      rw [inverts, cancel]

end chaining

end AirCast.BlockCipher

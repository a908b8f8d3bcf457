import AirCast.CString
import AirCast.Lib.PlaceValue

/-! # Big integers

The import and the export of bigint.c, with components of 32 bits. -/

set_option autoImplicit false

namespace AirCast.Crypt

/-- `struct _bigint`: its components, least significant first. -/
structure BigInt where
  comps : List UInt32
  deriving DecidableEq

namespace BigInt

def value (x : BigInt) : ℕ := Nat.ofDigits 4294967296 (x.comps.map UInt32.toNat)

/-- The loop of `trim`, over the components from the most significant one on. -/
def trimLeading : List UInt32 → List UInt32
  | [] => []
  | [comp] => [comp]
  | comp :: next :: rest => if comp = 0 then trimLeading (next :: rest) else comp :: next :: rest

def trim (bi : BigInt) : BigInt := ⟨(trimLeading bi.comps.reverse).reverse⟩

theorem ofDigits_trimLeading (b : ℕ) (comps : List UInt32) :
    Nat.ofDigits b ((trimLeading comps).reverse.map UInt32.toNat) =
      Nat.ofDigits b (comps.reverse.map UInt32.toNat) := by
  induction comps using trimLeading.induct with
  | case1 => rfl
  | case2 comp => rfl
  | case3 next rest ih =>
      rw [trimLeading, if_pos rfl, ih, List.reverse_cons (a := 0), List.map_append,
        List.map_singleton, UInt32.toNat_zero, Nat.ofDigits_append_zero]
  | case4 comp next rest nonzero => rw [trimLeading, if_neg nonzero]

@[simp] theorem value_trim (bi : BigInt) : bi.trim.value = bi.value := by
  rw [value, trim, ofDigits_trimLeading, List.reverse_reverse, value]

end BigInt

/-- `bi_import` while it runs. -/
structure Importing where
  comps : List UInt32
  j : ℕ
  offset : ℕ

def importByte (state : Importing) (c : UInt8) : Importing :=
  let comps := state.comps.modify state.offset (· + c.toUInt32 <<< UInt32.ofNat (state.j * 8))
  if state.j + 1 = 4 then ⟨comps, 0, state.offset + 1⟩ else ⟨comps, state.j + 1, state.offset⟩

def biImport (data : Bytes) : BigInt :=
  let biR := List.replicate ((data.length + 3) / 4) 0
  BigInt.trim ⟨(data.reverse.foldl importByte ⟨biR, 0, 0⟩).comps⟩

/-- The bytes that were read make up the value; those still to come have room in the
component at `offset` and the zeros behind it. -/
structure Imported (state : Importing) (read : List UInt8) : Prop where
  place : 4 * state.offset + state.j = read.length
  within : state.j < 4
  value : BigInt.value ⟨state.comps⟩ = Nat.ofDigits 256 (read.map UInt8.toNat)
  current : ∀ comp, state.comps[state.offset]? = some comp → comp.toNat < 256 ^ state.j
  later : ∀ i comp, state.offset < i → state.comps[i]? = some comp → comp = 0

theorem shiftedByte {j : ℕ} (within : j < 4) (c : UInt8) :
    (c.toUInt32 <<< UInt32.ofNat (j * 8)).toNat = c.toNat * 256 ^ j := by
  have bound := c.toNat_lt
  have shift : (UInt32.ofNat (j * 8)).toNat % 32 = j * 8 := by
    rw [UInt32.toNat_ofNat']
    omega
  rw [UInt32.toNat_shiftLeft, shift, UInt8.toNat_toUInt32, Nat.shiftLeft_eq, pow_mul']
  refine Nat.mod_eq_of_lt ?_
  interval_cases j <;> omega

theorem raisedComp {j : ℕ} (within : j < 4) {comp : UInt32} (room : comp.toNat < 256 ^ j)
    (c : UInt8) :
    (comp + c.toUInt32 <<< UInt32.ofNat (j * 8)).toNat = comp.toNat + c.toNat * 256 ^ j ∧
      comp.toNat + c.toNat * 256 ^ j < 256 ^ (j + 1) := by
  have bound := c.toNat_lt
  have fits : comp.toNat + c.toNat * 256 ^ j < 256 ^ (j + 1) := by
    interval_cases j <;> omega
  have whole : 256 ^ (j + 1) ≤ 2 ^ 32 := by
    interval_cases j <;> norm_num
  refine ⟨?_, fits⟩
  rw [UInt32.toNat_add, shiftedByte within]
  exact Nat.mod_eq_of_lt (lt_of_lt_of_le fits whole)

theorem importByte_spec {state : Importing} {read : List UInt8} (imported : Imported state read)
    (inside : state.offset < state.comps.length) (c : UInt8) :
    Imported (importByte state c) (read ++ [c]) := by
  obtain ⟨comps, j, offset⟩ := state
  obtain ⟨place, within, value, current, later⟩ := imported
  simp only at place within value current later inside
  have room := current comps[offset] (List.getElem?_eq_getElem inside)
  obtain ⟨raised, fits⟩ := raisedComp within room c
  set next := comps.modify offset (· + c.toUInt32 <<< UInt32.ofNat (j * 8)) with next_eq
  have digits : next.map UInt32.toNat =
      (comps.map UInt32.toNat).modify offset (· + c.toNat * 256 ^ j) := by
    have there : offset < (comps.map UInt32.toNat).length := by simpa using inside
    rw [next_eq, List.modify_eq_take_cons_drop inside, List.modify_eq_take_cons_drop there]
    simp only [List.map_append, List.map_take, List.map_cons, List.map_drop, raised,
      List.getElem_map]
  have nextValue : BigInt.value ⟨next⟩ =
      Nat.ofDigits 256 ((read ++ [c]).map UInt8.toNat) := by
    rw [BigInt.value] at value
    rw [BigInt.value, digits, ofDigits_modify _ _ _ _ (by simpa using inside), value,
      List.map_append, Nat.ofDigits_append, List.length_map, ← place, List.map_singleton, Nat.ofDigits_singleton,
      pow_add, pow_mul]
    norm_num
    ring
  have here : next[offset]? = some (comps[offset] + c.toUInt32 <<< UInt32.ofNat (j * 8)) := by
    rw [next_eq, List.getElem?_modify_eq, List.getElem?_eq_getElem inside]
    rfl
  have behind : ∀ i comp, offset < i → next[i]? = some comp → comp = 0 := by
    intro i comp beyond found
    rw [next_eq, List.getElem?_modify_ne _ _ (by omega)] at found
    exact later i comp beyond found
  rw [importByte]
  simp only [← next_eq]
  by_cases full : j + 1 = 4
  · rw [if_pos full]
    refine ⟨?_, Nat.zero_lt_succ 3, nextValue, ?_, ?_⟩
    · simp only [List.length_append, List.length_singleton]
      omega
    · intro comp found
      simp [behind (offset + 1) comp (by omega) found]
    · intro i comp beyond found
      exact behind i comp (by simp only at beyond; omega) found
  · rw [if_neg full]
    refine ⟨?_, by simp only; omega, nextValue, ?_, behind⟩
    · simp only [List.length_append, List.length_singleton]
      omega
    · intro comp found
      simp only at found
      rw [here] at found
      obtain rfl := Option.some.inj found
      rw [raised]
      exact fits

theorem importByte_length (state : Importing) (c : UInt8) :
    (importByte state c).comps.length = state.comps.length := by
  rw [importByte]
  split <;> simp

theorem import_loop : ∀ (data read : List UInt8) (state : Importing), Imported state read →
    read.length + data.length ≤ 4 * state.comps.length →
      Imported (data.foldl importByte state) (read ++ data) := by
  intro data
  induction data with
  | nil => intro read state imported _; simpa using imported
  | cons c rest ih =>
      intro read state imported room
      have place := imported.place
      have inside : state.offset < state.comps.length := by
        simp only [List.length_cons] at room
        omega
      have step := importByte_spec imported inside c
      have loop := ih (read ++ [c]) (importByte state c) step (by
        rw [importByte_length]
        simp only [List.length_append, List.length_cons, List.length_nil] at room ⊢
        omega)
      rwa [List.append_assoc, List.singleton_append] at loop

theorem biImport_value (data : Bytes) : (biImport data).value = numberOf data := by
  have start : Imported ⟨List.replicate ((data.length + 3) / 4) 0, 0, 0⟩ [] := by
    refine ⟨rfl, Nat.zero_lt_succ 3, ?_, ?_, ?_⟩
    · simp [BigInt.value, Nat.ofDigits_replicate_zero]
    · intro comp found
      simp [(List.mem_replicate.mp (List.mem_of_getElem? found)).2]
    · intro i comp _ found
      exact (List.mem_replicate.mp (List.mem_of_getElem? found)).2
  have done := import_loop data.reverse [] _ start (by
    simp only [List.length_nil, List.length_reverse, List.length_replicate]
    omega)
  rw [biImport, BigInt.value_trim, done.value, List.nil_append, numberOf]

def compBytes (comp : UInt32) : Bytes :=
  (List.range 4).map fun j =>
    ((comp &&& (0xff <<< UInt32.ofNat (j * 8))) >>> UInt32.ofNat (j * 8)).toUInt8

/-- `bi_export`: `data` is filled from its end, until there is no room or no component left. -/
def biExport (x : BigInt) (size : ℕ) : Bytes :=
  let written := (x.comps.flatMap compBytes).take size
  List.replicate (size - written.length) 0 ++ written.reverse

theorem compByte {j : ℕ} (within : j < 4) (comp : UInt32) :
    ((comp &&& (0xff <<< UInt32.ofNat (j * 8))) >>> UInt32.ofNat (j * 8)).toUInt8.toNat =
      comp.toNat / 256 ^ j % 256 := by
  have shift : (UInt32.ofNat (j * 8)).toNat % 32 = j * 8 := by
    rw [UInt32.toNat_ofNat']
    omega
  have mask : ((0xff : UInt32) <<< UInt32.ofNat (j * 8)).toNat >>> (j * 8) = 2 ^ 8 - 1 := by
    interval_cases j <;> rfl
  rw [UInt32.toNat_toUInt8, UInt32.toNat_shiftRight, shift, UInt32.toNat_and,
    Nat.shiftRight_and_distrib, mask, Nat.and_two_pow_sub_one_eq_mod, Nat.shiftRight_eq_div_pow,
    pow_mul', Nat.mod_mod]
  norm_num

theorem compBytes_digits (comp : UInt32) :
    ((compBytes comp).map UInt8.toNat).length = 4 ∧
      Nat.ofDigits 256 ((compBytes comp).map UInt8.toNat) = comp.toNat := by
  have bound := comp.toNat_lt
  have bytes : (compBytes comp).map UInt8.toNat =
      [comp.toNat / 256 ^ 0 % 256, comp.toNat / 256 ^ 1 % 256, comp.toNat / 256 ^ 2 % 256,
        comp.toNat / 256 ^ 3 % 256] := by
    have each := fun (j : ℕ) (within : j < 4) => compByte within comp
    simp only [compBytes, List.map_map]
    simp only [List.range_succ, List.range_zero, List.nil_append, List.map_cons,
      List.map_nil, List.cons_append, Function.comp_apply]
    rw [each 0 (by omega), each 1 (by omega), each 2 (by omega), each 3 (by omega)]
  rw [bytes]
  refine ⟨rfl, ?_⟩
  simp only [Nat.ofDigits_cons, Nat.ofDigits_nil]
  omega

theorem biExport_eq (x : BigInt) {size : ℕ} (small : x.value < 256 ^ size) :
    biExport x size = octets size x.value := by
  set bytes := x.comps.flatMap compBytes with bytes_eq
  have digits : Nat.ofDigits 256 (bytes.map UInt8.toNat) = x.value := by
    rw [bytes_eq, List.map_flatMap, ofDigits_flatMap _ _ compBytes_digits, BigInt.value]
    rfl
  have count : (biExport x size).length = size := by
    simp only [biExport, ← bytes_eq, List.length_append, List.length_replicate, List.length_reverse,
      List.length_take]
    omega
  refine eq_of_numberOf_eq (count.trans (octets_length _ _).symm) ?_
  have low : Nat.ofDigits 256 ((bytes.take size).map UInt8.toNat) = x.value := by
    rw [List.map_take, ofDigits_take_of_lt (by norm_num) (byte_digits bytes) (digits ▸ small),
      digits]
  rw [numberOf_octets small, biExport, numberOf_zeros, numberOf, List.reverse_reverse, ← bytes_eq,
    low]

end AirCast.Crypt

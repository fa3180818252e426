import P2PApp.Library.JsonString

/-!
# UTF-8

Strings of the language, which are sequences of UTF-16 code units, and their encoding in bytes. The
decoder takes any bytes: it runs over them with the sequence that is pending, if any, and puts a
replacement character for every sequence that breaks off.

A byte below `0x80` is a character wherever it stands, so that bytes can be cut at such a byte, and
no other byte contributes a character below `0x80`.
-/

namespace P2PApp.Utf8

open JsonString

abbrev Byte := BitVec 8

/-- The character `U+FFFD`. -/
def replacement : CodeUnit := 0xFFFD

/-- The units of a code point. -/
def utf16 (point : ℕ) : JSString :=
  if point < 0x10000 then [.ofNat 16 point]
  else [.ofNat 16 (0xD800 + (point - 0x10000) / 0x400),
    .ofNat 16 (0xDC00 + (point - 0x10000) % 0x400)]

/-! ## Encoding -/

def encodePoint (point : ℕ) : List Byte :=
  if point < 0x80 then [.ofNat 8 point]
  else if point < 0x800 then [.ofNat 8 (0xC0 + point / 64), .ofNat 8 (0x80 + point % 64)]
  else if point < 0x10000 then
    [.ofNat 8 (0xE0 + point / 4096), .ofNat 8 (0x80 + point / 64 % 64),
      .ofNat 8 (0x80 + point % 64)]
  else
    [.ofNat 8 (0xF0 + point / 262144), .ofNat 8 (0x80 + point / 4096 % 64),
      .ofNat 8 (0x80 + point / 64 % 64), .ofNat 8 (0x80 + point % 64)]

/-- The code point of a surrogate pair. -/
def pairPoint (unit next : CodeUnit) : ℕ :=
  0x10000 + (unit.toNat - 0xD800) * 0x400 + (next.toNat - 0xDC00)

/-- The code point of a unit outside of a pair. -/
def unitPoint (unit : CodeUnit) : ℕ :=
  if isLeadingSurrogate unit ∨ isTrailingSurrogate unit then replacement.toNat else unit.toNat

def encode : JSString → List Byte
  | [] => []
  | [unit] => encodePoint (unitPoint unit)
  | unit :: next :: rest =>
    if isLeadingSurrogate unit ∧ isTrailingSurrogate next then
      encodePoint (pairPoint unit next) ++ encode rest
    else encodePoint (unitPoint unit) ++ encode (next :: rest)

/-- All surrogates stand in pairs. -/
def WellFormed : JSString → Prop
  | [] => True
  | [unit] => isLeadingSurrogate unit = false ∧ isTrailingSurrogate unit = false
  | unit :: next :: rest =>
    if isLeadingSurrogate unit ∧ isTrailingSurrogate next then WellFormed rest
    else (isLeadingSurrogate unit = false ∧ isTrailingSurrogate unit = false) ∧
      WellFormed (next :: rest)

/-! ## Decoding -/

/-- What has been read of a sequence: `needed` bytes are missing, the next one between `lower` and
`upper`. The bounds exclude overlong forms, surrogates and numbers that are no code points. -/
structure Pending where
  needed : ℕ
  point : ℕ
  lower : ℕ
  upper : ℕ
  continues : 0x80 ≤ lower ∧ upper ≤ 0xBF
  inRange :
    needed = 1 ∧ 2 ≤ point ∧ point < 0x4400 ∨
    needed = 2 ∧ 2 ≤ point * 64 + (lower - 0x80) ∧ point * 64 + (upper - 0x80) < 0x4400 ∨
    needed = 3 ∧ 1 ≤ point * 64 + (lower - 0x80) ∧ point * 64 + (upper - 0x80) < 0x110

/-- The sequence that a byte from `0x80` on begins. -/
def lead (byte : ℕ) : Option Pending :=
  if h : 0xC2 ≤ byte ∧ byte ≤ 0xDF then some ⟨1, byte - 0xC0, 0x80, 0xBF, by omega, by omega⟩
  else if h : 0xE0 ≤ byte ∧ byte ≤ 0xEF then
    some ⟨2, byte - 0xE0, if byte = 0xE0 then 0xA0 else 0x80, if byte = 0xED then 0x9F else 0xBF,
      by split <;> split <;> omega, by split <;> split <;> omega⟩
  else if h : 0xF0 ≤ byte ∧ byte ≤ 0xF4 then
    some ⟨3, byte - 0xF0, if byte = 0xF0 then 0x90 else 0x80, if byte = 0xF4 then 0x8F else 0xBF,
      by split <;> split <;> omega, by split <;> split <;> omega⟩
  else none

/-- A byte between two characters. -/
def start (byte : Byte) : JSString × Option Pending :=
  if byte.toNat < 0x80 then ([.ofNat 16 byte.toNat], none)
  else
    match lead byte.toNat with
    | some pending => ([], some pending)
    | none => ([replacement], none)

/-- The units that are known with the next byte, and what is pending then. A byte that does not
continue the sequence is taken up anew. -/
def step : Option Pending → Byte → JSString × Option Pending
  | none, byte => start byte
  | some pending, byte =>
    if h : pending.lower ≤ byte.toNat ∧ byte.toNat ≤ pending.upper then
      if hlast : pending.needed = 1 then (utf16 (pending.point * 64 + (byte.toNat - 0x80)), none)
      else
        ([], some ⟨pending.needed - 1, pending.point * 64 + (byte.toNat - 0x80), 0x80, 0xBF,
          by omega, by have := pending.inRange; omega⟩)
    else (replacement :: (start byte).1, (start byte).2)

def decodeFrom : Option Pending → List Byte → JSString
  | none, [] => []
  | some _, [] => [replacement]
  | state, byte :: rest => (step state byte).1 ++ decodeFrom (step state byte).2 rest

def decode (bytes : List Byte) : JSString := decodeFrom none bytes

theorem decodeFrom_cons (state : Option Pending) (byte : Byte) (rest : List Byte) :
    decodeFrom state (byte :: rest) =
      (step state byte).1 ++ decodeFrom (step state byte).2 rest := by
  cases state <;> rfl

/-! ## Characters below `0x80` -/

/-- The unit of a byte below `0x80`. -/
def asciiUnit (byte : Byte) : CodeUnit := .ofNat 16 byte.toNat

/-- What is left of a string without the units from `0x80` on. -/
def asciiPart (text : JSString) : JSString := text.filter fun unit ↦ unit.toNat < 0x80

/-- The characters below `0x80` among some bytes. -/
def asciiBytes (bytes : List Byte) : JSString :=
  (bytes.filter fun byte ↦ byte.toNat < 0x80).map asciiUnit

@[simp] theorem asciiPart_append (left right : JSString) :
    asciiPart (left ++ right) = asciiPart left ++ asciiPart right := List.filter_append ..

@[simp] theorem asciiBytes_append (left right : List Byte) :
    asciiBytes (left ++ right) = asciiBytes left ++ asciiBytes right := by
  simp [asciiBytes]

theorem toNat_asciiUnit (byte : Byte) : (asciiUnit byte).toNat = byte.toNat := by
  have hlt := byte.isLt
  rw [asciiUnit, BitVec.toNat_ofNat]
  omega

theorem asciiPart_cons (unit : CodeUnit) (text : JSString) :
    asciiPart (unit :: text) = (if unit.toNat < 0x80 then [unit] else []) ++ asciiPart text := by
  by_cases h : unit.toNat < 0x80 <;> simp [asciiPart, h]

theorem asciiBytes_cons (byte : Byte) (bytes : List Byte) :
    asciiBytes (byte :: bytes) =
      (if byte.toNat < 0x80 then [asciiUnit byte] else []) ++ asciiBytes bytes := by
  by_cases h : byte.toNat < 0x80 <;> simp [asciiBytes, h]

theorem asciiPart_eq_nil {text : JSString} (h : ∀ unit ∈ text, 0x80 ≤ unit.toNat) :
    asciiPart text = [] := by
  apply List.filter_eq_nil_iff.2
  intro unit hunit
  have hunit := h unit hunit
  simpa using hunit

theorem le_of_mem_utf16 {point : ℕ} (hlower : 0x80 ≤ point) (hupper : point < 0x110000)
    {unit : CodeUnit} (hunit : unit ∈ utf16 point) : 0x80 ≤ unit.toNat := by
  unfold utf16 at hunit
  split at hunit
  · obtain rfl := List.mem_singleton.1 hunit
    rw [BitVec.toNat_ofNat]
    omega
  · simp only [List.mem_cons, List.not_mem_nil, or_false] at hunit
    rcases hunit with rfl | rfl <;> rw [BitVec.toNat_ofNat] <;> omega

/-- With its last byte a sequence gives a code point from `0x80` on. -/
theorem Pending.last_inRange (pending : Pending) (hlast : pending.needed = 1) {byte : Byte}
    (hbyte : pending.lower ≤ byte.toNat ∧ byte.toNat ≤ pending.upper) :
    0x80 ≤ pending.point * 64 + (byte.toNat - 0x80) ∧
      pending.point * 64 + (byte.toNat - 0x80) < 0x110000 := by
  obtain ⟨hlower, hupper⟩ := pending.continues
  obtain ⟨-, htwo, hpoint⟩ : 1 = 1 ∧ 2 ≤ pending.point ∧ pending.point < 0x4400 := by
    have hrange := pending.inRange
    omega
  constructor
  · omega
  · omega

theorem start_of_lt {byte : Byte} (h : byte.toNat < 0x80) : start byte = ([asciiUnit byte], none) :=
  if_pos h

/-- A byte from `0x80` on begins a sequence, or is replaced. -/
theorem start_of_le {byte : Byte} (h : 0x80 ≤ byte.toNat) :
    (∃ pending, start byte = ([], some pending)) ∨ start byte = ([replacement], none) := by
  rw [start, if_neg (by omega)]
  cases lead byte.toNat with
  | some pending => exact .inl ⟨pending, rfl⟩
  | none => exact .inr rfl

theorem asciiPart_start (byte : Byte) : asciiPart (start byte).1 = asciiBytes [byte] := by
  rw [asciiBytes_cons]
  by_cases h : byte.toNat < 0x80
  · rw [start_of_lt h, if_pos h, asciiPart_cons, toNat_asciiUnit, if_pos h]
    rfl
  · rw [if_neg h]
    rcases start_of_le (Nat.le_of_not_lt h) with ⟨pending, heq⟩ | heq <;> rw [heq] <;> rfl

theorem asciiPart_step (state : Option Pending) (byte : Byte) :
    asciiPart (step state byte).1 = asciiBytes [byte] := by
  cases state with
  | none => exact asciiPart_start byte
  | some pending =>
    rw [step]
    split
    · rename_i h
      have hlower := pending.continues.1
      have hbyte : ¬byte.toNat < 0x80 := by omega
      rw [asciiBytes_cons, if_neg hbyte]
      split
      · rename_i hlast
        apply asciiPart_eq_nil
        intro unit hunit
        obtain ⟨hsmall, hlarge⟩ := pending.last_inRange hlast h
        dsimp only at hunit
        exact le_of_mem_utf16 hsmall hlarge hunit
      · rfl
    · exact asciiPart_start byte

/-- Decoding neither makes nor loses a character below `0x80`. -/
theorem asciiPart_decodeFrom (state : Option Pending) (bytes : List Byte) :
    asciiPart (decodeFrom state bytes) = asciiBytes bytes := by
  induction bytes generalizing state with
  | nil => cases state <;> rfl
  | cons byte rest ih =>
    rw [decodeFrom_cons, asciiPart_append, asciiPart_step, ih, ← asciiBytes_append,
      List.singleton_append]

theorem asciiPart_decode (bytes : List Byte) : asciiPart (decode bytes) = asciiBytes bytes :=
  asciiPart_decodeFrom none bytes

theorem decodeFrom_append_cons {byte : Byte} (h : byte.toNat < 0x80) (state : Option Pending)
    (left right : List Byte) :
    decodeFrom state (left ++ byte :: right) =
      decodeFrom state left ++ asciiUnit byte :: decode right := by
  induction left generalizing state with
  | nil =>
    rw [List.nil_append, decodeFrom_cons]
    cases state with
    | none =>
      rw [step, start_of_lt h]
      rfl
    | some pending =>
      have hlower := pending.continues.1
      rw [step, dif_neg (by omega), start_of_lt h]
      rfl
  | cons first rest ih =>
    rw [List.cons_append, decodeFrom_cons, ih, decodeFrom_cons, List.append_assoc]

/-- Bytes can be cut at a byte below `0x80`. -/
theorem decode_append_cons {byte : Byte} (h : byte.toNat < 0x80) (left right : List Byte) :
    decode (left ++ byte :: right) = decode left ++ asciiUnit byte :: decode right :=
  decodeFrom_append_cons h none left right

theorem decode_concat_append {byte : Byte} (h : byte.toNat < 0x80) (left right : List Byte) :
    decode (left ++ [byte] ++ right) = decode (left ++ [byte]) ++ decode right := by
  rw [decode_append_cons h left [], List.append_assoc, List.singleton_append,
    decode_append_cons h left right]
  simp [decode, decodeFrom]

/-- The next unit of a pending sequence is none below `0x80`. -/
theorem decodeFrom_pending (pending : Pending) (bytes : List Byte) :
    ∃ unit rest, decodeFrom (some pending) bytes = unit :: rest ∧ 0x80 ≤ unit.toNat := by
  induction bytes generalizing pending with
  | nil => exact ⟨replacement, [], rfl, by decide⟩
  | cons byte bytes ih =>
    rw [decodeFrom_cons, step]
    split
    · split
      · rename_i hbyte hlast
        obtain ⟨hsmall, hlarge⟩ := pending.last_inRange hlast hbyte
        have hunits := fun unit ↦ @le_of_mem_utf16 _ hsmall hlarge unit
        cases hpoint : utf16 (pending.point * 64 + (byte.toNat - 0x80)) with
        | nil =>
          unfold utf16 at hpoint
          split at hpoint <;> cases hpoint
        | cons unit rest =>
          rw [hpoint] at hunits
          exact ⟨unit, _, rfl, hunits unit (List.mem_cons_self ..)⟩
      · exact ih _
    · exact ⟨replacement, _, rfl, by decide⟩

/-- A string that starts with a character below `0x80` comes from bytes that start with it. -/
theorem head_of_decode {bytes : List Byte} {unit : CodeUnit} {text : JSString}
    (hdecode : decode bytes = unit :: text) (hunit : unit.toNat < 0x80) :
    ∃ byte rest, bytes = byte :: rest ∧ byte.toNat < 0x80 ∧ asciiUnit byte = unit := by
  cases bytes with
  | nil => cases hdecode
  | cons byte rest =>
    rw [decode, decodeFrom_cons, step] at hdecode
    by_cases hbyte : byte.toNat < 0x80
    · rw [start_of_lt hbyte] at hdecode
      exact ⟨byte, rest, rfl, hbyte, (List.cons.inj hdecode).1⟩
    · exfalso
      rcases start_of_le (Nat.le_of_not_lt hbyte) with ⟨pending, heq⟩ | heq
      · obtain ⟨first, others, hfirst, hlarge⟩ := decodeFrom_pending pending rest
        rw [heq, List.nil_append, hfirst] at hdecode
        rw [(List.cons.inj hdecode).1] at hlarge
        omega
      · rw [heq] at hdecode
        obtain rfl := (List.cons.inj hdecode).1
        exact absurd hunit (by decide)

theorem decodeFrom_cons_ne_nil (state : Option Pending) (byte : Byte) (rest : List Byte) :
    decodeFrom state (byte :: rest) ≠ [] := by
  intro hnil
  cases state with
  | some pending =>
    obtain ⟨unit, text, heq, -⟩ := decodeFrom_pending pending (byte :: rest)
    rw [hnil] at heq
    cases heq
  | none =>
    rw [decodeFrom_cons, step] at hnil
    by_cases hbyte : byte.toNat < 0x80
    · rw [start_of_lt hbyte] at hnil
      cases hnil
    · rcases start_of_le (Nat.le_of_not_lt hbyte) with ⟨pending, heq⟩ | heq
      · obtain ⟨unit, text, hpending, -⟩ := decodeFrom_pending pending rest
        rw [heq, List.nil_append, hpending] at hnil
        cases hnil
      · rw [heq] at hnil
        cases hnil

theorem decodeFrom_concat {byte : Byte} (h : 0x80 ≤ byte.toNat) (state : Option Pending)
    (bytes : List Byte) : ∃ text unit, decodeFrom state (bytes ++ [byte]) = text ++ [unit] ∧
      0x80 ≤ unit.toNat := by
  induction bytes generalizing state with
  | nil =>
    have hne := decodeFrom_cons_ne_nil state byte []
    have hpart := asciiPart_decodeFrom state [byte]
    rw [asciiBytes_cons, if_neg (by omega)] at hpart
    have hlast := List.filter_eq_nil_iff.1 hpart _ (List.getLast_mem hne)
    exact ⟨_, _, (List.dropLast_append_getLast hne).symm, by simpa using hlast⟩
  | cons first rest ih =>
    obtain ⟨text, unit, heq, hunit⟩ := ih (step state first).2
    rw [List.cons_append, decodeFrom_cons, heq, ← List.append_assoc]
    exact ⟨_, unit, rfl, hunit⟩

/-- A string that ends with a character below `0x80` comes from bytes that end with it. -/
theorem last_of_decode {bytes : List Byte} {unit : CodeUnit} {text : JSString}
    (hdecode : decode bytes = text ++ [unit]) (hunit : unit.toNat < 0x80) :
    ∃ rest byte, bytes = rest ++ [byte] ∧ byte.toNat < 0x80 := by
  rcases List.eq_nil_or_concat bytes with rfl | ⟨rest, byte, rfl⟩
  · exact absurd hdecode.symm (by simp [decode, decodeFrom])
  · refine ⟨rest, byte, by simp, Nat.lt_of_not_le fun hbyte ↦ ?_⟩
    obtain ⟨front, last, hconcat, hlarge⟩ := decodeFrom_concat hbyte none rest
    rw [List.concat_eq_append, decode, hconcat] at hdecode
    obtain ⟨-, hlast⟩ := List.append_inj' hdecode rfl
    rw [(List.cons.inj hlast).1] at hlarge
    omega

/-! ## The round trip -/

theorem decodeFrom_last {pending : Pending} (hneeded : pending.needed = 1) {byte : Byte}
    (hbyte : pending.lower ≤ byte.toNat ∧ byte.toNat ≤ pending.upper) (rest : List Byte) :
    decodeFrom (some pending) (byte :: rest) =
      utf16 (pending.point * 64 + (byte.toNat - 0x80)) ++ decodeFrom none rest := by
  rw [decodeFrom_cons, step, dif_pos hbyte, dif_pos hneeded]

theorem decodeFrom_continue {pending : Pending} (hneeded : pending.needed ≠ 1) {byte : Byte}
    (hbyte : pending.lower ≤ byte.toNat ∧ byte.toNat ≤ pending.upper) (rest : List Byte) :
    ∃ next : Pending, next.needed = pending.needed - 1 ∧
      next.point = pending.point * 64 + (byte.toNat - 0x80) ∧ next.lower = 0x80 ∧
      next.upper = 0xBF ∧
      decodeFrom (some pending) (byte :: rest) = decodeFrom (some next) rest := by
  rw [decodeFrom_cons, step, dif_pos hbyte, dif_neg hneeded]
  dsimp only
  refine ⟨_, ?_, ?_, ?_, ?_, rfl⟩ <;> dsimp only

theorem decodeFrom_lead {byte : Byte} {pending : Pending}
    (hlead : lead byte.toNat = some pending) (rest : List Byte) :
    decodeFrom none (byte :: rest) = decodeFrom (some pending) rest := by
  have hbyte : ¬byte.toNat < 0x80 := by
    intro hlt
    rw [lead, dif_neg (by omega), dif_neg (by omega), dif_neg (by omega)] at hlead
    cases hlead
  rw [decodeFrom_cons, step, start, if_neg hbyte, hlead]
  rfl

/-- A code point that is no surrogate. -/
def IsScalar (point : ℕ) : Prop := point < 0xD800 ∨ 0xE000 ≤ point ∧ point < 0x110000

theorem toNat_byte {value : ℕ} (h : value < 0x100) : (BitVec.ofNat 8 value).toNat = value := by
  rw [BitVec.toNat_ofNat]
  omega

theorem exists_lead_two {value : ℕ} (hlower : 2 ≤ value) (hupper : value ≤ 0x1F) :
    ∃ pending, lead (0xC0 + value) = some pending ∧ pending.needed = 1 ∧ pending.point = value ∧
      pending.lower = 0x80 ∧ pending.upper = 0xBF := by
  rw [lead, dif_pos (by omega)]
  refine ⟨_, rfl, rfl, ?_, rfl, rfl⟩
  dsimp only
  omega

theorem exists_lead_three {value : ℕ} (h : value ≤ 0xF) :
    ∃ pending, lead (0xE0 + value) = some pending ∧ pending.needed = 2 ∧ pending.point = value ∧
      pending.lower = (if value = 0 then 0xA0 else 0x80) ∧
      pending.upper = (if value = 0xD then 0x9F else 0xBF) := by
  rw [lead, dif_neg (by omega), dif_pos (by omega)]
  refine ⟨_, rfl, rfl, ?_, ?_, ?_⟩
  · dsimp only
    omega
  · exact if_congr (by omega) rfl rfl
  · exact if_congr (by omega) rfl rfl

theorem exists_lead_four {value : ℕ} (h : value ≤ 4) :
    ∃ pending, lead (0xF0 + value) = some pending ∧ pending.needed = 3 ∧ pending.point = value ∧
      pending.lower = (if value = 0 then 0x90 else 0x80) ∧
      pending.upper = (if value = 4 then 0x8F else 0xBF) := by
  rw [lead, dif_neg (by omega), dif_neg (by omega), dif_pos (by omega)]
  refine ⟨_, rfl, rfl, ?_, ?_, ?_⟩
  · dsimp only
    omega
  · exact if_congr (by omega) rfl rfl
  · exact if_congr (by omega) rfl rfl

/-- The last byte of the sequence of a code point. -/
theorem decodeFrom_finish {pending : Pending} (hneeded : pending.needed = 1)
    (hlower : pending.lower = 0x80) (hupper : pending.upper = 0xBF) {point : ℕ}
    (hpoint : pending.point = point / 64) (rest : List Byte) :
    decodeFrom (some pending) (.ofNat 8 (0x80 + point % 64) :: rest) =
      utf16 point ++ decodeFrom none rest := by
  have hbyte := toNat_byte (by omega : 0x80 + point % 64 < 0x100)
  have hsum : pending.point * 64 + (0x80 + point % 64 - 0x80) = point := by omega
  rw [decodeFrom_last hneeded (by omega), hbyte, hsum]

/-- The last two bytes. -/
theorem decodeFrom_finish_two {pending : Pending} (hneeded : pending.needed = 2) {point : ℕ}
    (hbyte : pending.lower ≤ 0x80 + point / 64 % 64 ∧ 0x80 + point / 64 % 64 ≤ pending.upper)
    (hpoint : pending.point = point / 4096) (rest : List Byte) :
    decodeFrom (some pending)
        (.ofNat 8 (0x80 + point / 64 % 64) :: .ofNat 8 (0x80 + point % 64) :: rest) =
      utf16 point ++ decodeFrom none rest := by
  have hvalue := toNat_byte (by omega : 0x80 + point / 64 % 64 < 0x100)
  obtain ⟨next, hnext, hnextPoint, hlower, hupper, heq⟩ := decodeFrom_continue
    (by omega : pending.needed ≠ 1) (by rwa [hvalue] : pending.lower ≤
      (BitVec.ofNat 8 (0x80 + point / 64 % 64)).toNat ∧
      (BitVec.ofNat 8 (0x80 + point / 64 % 64)).toNat ≤ pending.upper)
    (.ofNat 8 (0x80 + point % 64) :: rest)
  rw [hvalue] at hnextPoint
  rw [heq, decodeFrom_finish (by omega) hlower hupper (by omega)]

theorem decodeFrom_encodePoint {point : ℕ} (h : IsScalar point) (rest : List Byte) :
    decodeFrom none (encodePoint point ++ rest) = utf16 point ++ decodeFrom none rest := by
  unfold IsScalar at h
  unfold encodePoint
  split
  · rename_i hone
    have hbyte := toNat_byte (by omega : point < 0x100)
    rw [List.singleton_append, decodeFrom_cons, step, start, hbyte, if_pos hone, utf16,
      if_pos (by omega)]
  split
  · rename_i htwo
    obtain ⟨pending, hlead, hneeded, hpoint, hlower, hupper⟩ :=
      exists_lead_two (by omega : 2 ≤ point / 64) (by omega)
    have hfirst := toNat_byte (by omega : 0xC0 + point / 64 < 0x100)
    rw [← hfirst] at hlead
    rw [List.cons_append, List.cons_append, List.nil_append, decodeFrom_lead hlead,
      decodeFrom_finish hneeded hlower hupper hpoint]
  split
  · rename_i hthree
    obtain ⟨pending, hlead, hneeded, hpoint, hlower, hupper⟩ :=
      exists_lead_three (by omega : point / 4096 ≤ 0xF)
    have hfirst := toNat_byte (by omega : 0xE0 + point / 4096 < 0x100)
    rw [← hfirst] at hlead
    rw [List.cons_append, List.cons_append, List.cons_append, List.nil_append,
      decodeFrom_lead hlead]
    apply decodeFrom_finish_two hneeded ?_ hpoint
    rw [hlower, hupper]
    split <;> split <;> omega
  · rename_i hfour
    obtain ⟨pending, hlead, hneeded, hpoint, hlower, hupper⟩ :=
      exists_lead_four (by omega : point / 262144 ≤ 4)
    have hfirst := toNat_byte (by omega : 0xF0 + point / 262144 < 0x100)
    have hsecond := toNat_byte (by omega : 0x80 + point / 4096 % 64 < 0x100)
    have hrange : pending.lower ≤ (BitVec.ofNat 8 (0x80 + point / 4096 % 64)).toNat ∧
        (BitVec.ofNat 8 (0x80 + point / 4096 % 64)).toNat ≤ pending.upper := by
      rw [hsecond, hlower, hupper]
      split <;> split <;> omega
    obtain ⟨next, hnext, hnextPoint, hnextLower, hnextUpper, heq⟩ := decodeFrom_continue
      (by omega : pending.needed ≠ 1) hrange
      (.ofNat 8 (0x80 + point / 64 % 64) :: .ofNat 8 (0x80 + point % 64) :: rest)
    rw [← hfirst] at hlead
    rw [hsecond] at hnextPoint
    rw [List.cons_append, List.cons_append, List.cons_append, List.cons_append, List.nil_append,
      decodeFrom_lead hlead, heq, decodeFrom_finish_two (by omega) (by omega) (by omega)]

theorem isLeadingSurrogate_iff {unit : CodeUnit} :
    isLeadingSurrogate unit = true ↔ 0xD800 ≤ unit.toNat ∧ unit.toNat ≤ 0xDBFF := by
  simp [isLeadingSurrogate, BitVec.le_def]

theorem isTrailingSurrogate_iff {unit : CodeUnit} :
    isTrailingSurrogate unit = true ↔ 0xDC00 ≤ unit.toNat ∧ unit.toNat ≤ 0xDFFF := by
  simp [isTrailingSurrogate, BitVec.le_def]

theorem eq_ofNat {unit : CodeUnit} {value : ℕ} (h : value = unit.toNat) :
    BitVec.ofNat 16 value = unit := by
  rw [h, BitVec.ofNat_toNat, BitVec.setWidth_eq]

theorem utf16_pairPoint {unit next : CodeUnit} (hunit : isLeadingSurrogate unit = true)
    (hnext : isTrailingSurrogate next = true) :
    IsScalar (pairPoint unit next) ∧ utf16 (pairPoint unit next) = [unit, next] := by
  rw [isLeadingSurrogate_iff] at hunit
  rw [isTrailingSurrogate_iff] at hnext
  obtain ⟨point, hpoint⟩ : ∃ point, point = pairPoint unit next := ⟨_, rfl⟩
  rw [← hpoint]
  unfold pairPoint at hpoint
  refine ⟨.inr (by omega), ?_⟩
  rw [utf16, if_neg (by omega), eq_ofNat (by omega : _ = unit.toNat),
    eq_ofNat (by omega : _ = next.toNat)]

theorem utf16_unitPoint {unit : CodeUnit} (hleading : isLeadingSurrogate unit = false)
    (htrailing : isTrailingSurrogate unit = false) :
    IsScalar (unitPoint unit) ∧ utf16 (unitPoint unit) = [unit] := by
  have hpoint : unitPoint unit = unit.toNat := by simp [unitPoint, hleading, htrailing]
  have hlt := unit.isLt
  rw [← Bool.not_eq_true, isLeadingSurrogate_iff] at hleading
  rw [← Bool.not_eq_true, isTrailingSurrogate_iff] at htrailing
  rw [hpoint]
  constructor
  · unfold IsScalar
    omega
  · rw [utf16, if_pos (by omega), eq_ofNat rfl]

theorem WellFormed.append {left right : JSString} (hleft : WellFormed left)
    (hright : WellFormed right) : WellFormed (left ++ right) := by
  fun_induction WellFormed left with
  | case1 => exact hright
  | case2 unit =>
    cases right with
    | nil => exact hleft
    | cons next rest =>
      rw [List.singleton_append, WellFormed, if_neg (by simp [hleft.1])]
      exact ⟨hleft, hright⟩
  | case3 unit next rest hpair ih =>
    rw [List.cons_append, List.cons_append, WellFormed, if_pos hpair]
    exact ih hleft
  | case4 unit next rest hpair ih =>
    rw [List.cons_append, List.cons_append, WellFormed, if_neg hpair]
    exact ⟨hleft.1, ih hleft.2⟩

theorem WellFormed.cons {unit : CodeUnit} (hleading : isLeadingSurrogate unit = false)
    (htrailing : isTrailingSurrogate unit = false) {text : JSString} (h : WellFormed text) :
    WellFormed (unit :: text) :=
  @WellFormed.append [unit] text ⟨hleading, htrailing⟩ h

theorem wellFormed_of_lt {text : JSString} (h : ∀ unit ∈ text, unit.toNat < 0x80) :
    WellFormed text := by
  induction text with
  | nil => trivial
  | cons unit rest ih =>
    have hunit := h unit (List.mem_cons_self ..)
    have hrest := ih fun other hother ↦ h other (List.mem_cons_of_mem _ hother)
    apply WellFormed.cons _ _ hrest
    · rw [← Bool.not_eq_true, isLeadingSurrogate_iff]
      omega
    · rw [← Bool.not_eq_true, isTrailingSurrogate_iff]
      omega

/-- Units below `0x80` are their own bytes. -/
theorem encode_of_lt {text : JSString} (h : ∀ unit ∈ text, unit.toNat < 0x80) :
    encode text = text.map fun unit ↦ .ofNat 8 unit.toNat := by
  have hpoint (unit : CodeUnit) (hunit : unit.toNat < 0x80) :
      encodePoint (unitPoint unit) = [.ofNat 8 unit.toNat] := by
    have hnot : ¬(isLeadingSurrogate unit = true ∨ isTrailingSurrogate unit = true) := by
      rw [isLeadingSurrogate_iff, isTrailingSurrogate_iff]
      omega
    rw [unitPoint, if_neg hnot, encodePoint, if_pos hunit]
  fun_induction encode text with
  | case1 => rfl
  | case2 unit => exact hpoint unit (h unit (List.mem_singleton_self _))
  | case3 unit next tail hpair ih =>
    have hunit := h unit List.mem_cons_self
    rw [isLeadingSurrogate_iff] at hpair
    omega
  | case4 unit next tail hpair ih =>
    rw [hpoint unit (h unit List.mem_cons_self),
      ih fun other hother ↦ h other (List.mem_cons_of_mem _ hother)]
    rfl

/-- The decoder undoes the encoder. -/
theorem decode_encode {text : JSString} (h : WellFormed text) : decode (encode text) = text := by
  unfold decode
  fun_induction encode text with
  | case1 => rfl
  | case2 unit =>
    obtain ⟨hscalar, hunit⟩ := utf16_unitPoint h.1 h.2
    rw [← List.append_nil (encodePoint _), decodeFrom_encodePoint hscalar, hunit]
    rfl
  | case3 unit next tail hpair ih =>
    obtain ⟨hscalar, hunits⟩ := utf16_pairPoint hpair.1 hpair.2
    rw [WellFormed, if_pos hpair] at h
    rw [decodeFrom_encodePoint hscalar, hunits, ih h]
    rfl
  | case4 unit next tail hpair ih =>
    rw [WellFormed, if_neg hpair] at h
    obtain ⟨hscalar, hunit⟩ := utf16_unitPoint h.1.1 h.1.2
    rw [decodeFrom_encodePoint hscalar, hunit, ih h.2]
    rfl

theorem encode_inj {left right : JSString} (hleft : WellFormed left) (hright : WellFormed right) :
    encode left = encode right ↔ left = right := by
  constructor
  · intro heq
    rw [← decode_encode hleft, heq, decode_encode hright]
  · exact congrArg encode

/-! ## Encoding of strings put together -/

theorem isScalar_unitPoint (unit : CodeUnit) : IsScalar (unitPoint unit) := by
  by_cases hlone : isLeadingSurrogate unit = true ∨ isTrailingSurrogate unit = true
  · rw [unitPoint, if_pos hlone]
    exact .inr (by decide)
  · simp only [not_or, Bool.not_eq_true] at hlone
    exact (utf16_unitPoint hlone.1 hlone.2).1

theorem toNat_unit {value : ℕ} (h : value < 0x10000) : (BitVec.ofNat 16 value).toNat = value := by
  rw [BitVec.toNat_ofNat]
  exact Nat.mod_eq_of_lt h

/-- The units of a code point are encoded as that point, whatever follows. -/
theorem encode_utf16_append {point : ℕ} (h : IsScalar point) (rest : JSString) :
    encode (utf16 point ++ rest) = encodePoint point ++ encode rest := by
  unfold IsScalar at h
  unfold utf16
  split
  · rename_i hone
    have hvalue := toNat_unit hone
    have hnot : ¬(isLeadingSurrogate (.ofNat 16 point) = true ∨
        isTrailingSurrogate (.ofNat 16 point) = true) := by
      rw [isLeadingSurrogate_iff, isTrailingSurrogate_iff, hvalue]
      omega
    have hpoint : unitPoint (.ofNat 16 point) = point := by rw [unitPoint, if_neg hnot, hvalue]
    cases rest with
    | nil =>
      have hnil : encode [] = [] := rfl
      rw [hnil, List.append_nil, List.append_nil, encode, hpoint]
    | cons next rest =>
      rw [List.singleton_append, encode, if_neg fun hpair ↦ hnot (.inl hpair.1), hpoint]
  · rename_i hpair
    obtain ⟨high, hhigh⟩ : ∃ high, high = 0xD800 + (point - 0x10000) / 0x400 := ⟨_, rfl⟩
    obtain ⟨low, hlow⟩ : ∃ low, low = 0xDC00 + (point - 0x10000) % 0x400 := ⟨_, rfl⟩
    rw [← hhigh, ← hlow]
    have hfirst := toNat_unit (by omega : high < 0x10000)
    have hsecond := toNat_unit (by omega : low < 0x10000)
    have hleading : isLeadingSurrogate (.ofNat 16 high) = true := by
      rw [isLeadingSurrogate_iff, hfirst]
      omega
    have htrailing : isTrailingSurrogate (.ofNat 16 low) = true := by
      rw [isTrailingSurrogate_iff, hsecond]
      omega
    have hpoint : pairPoint (.ofNat 16 high) (.ofNat 16 low) = point := by
      unfold pairPoint
      rw [hfirst, hsecond]
      omega
    rw [List.cons_append, List.singleton_append, encode, if_pos ⟨hleading, htrailing⟩, hpoint]

/-- What a decoder reads is encoded to the same bytes again, also where surrogates got lost. -/
theorem encode_decode_encode (text : JSString) : encode (decode (encode text)) = encode text := by
  unfold decode
  fun_induction encode text with
  | case1 => rfl
  | case2 unit =>
    rw [← List.append_nil (encodePoint _), decodeFrom_encodePoint (isScalar_unitPoint unit),
      encode_utf16_append (isScalar_unitPoint unit)]
    rfl
  | case3 unit next tail hpair ih =>
    obtain ⟨hscalar, _⟩ := utf16_pairPoint hpair.1 hpair.2
    rw [decodeFrom_encodePoint hscalar, encode_utf16_append hscalar, ih]
  | case4 unit next tail hpair ih =>
    rw [decodeFrom_encodePoint (isScalar_unitPoint unit),
      encode_utf16_append (isScalar_unitPoint unit), ih]

theorem wellFormed_utf16 {point : ℕ} (h : IsScalar point) : WellFormed (utf16 point) := by
  unfold IsScalar at h
  unfold utf16
  split
  · rename_i hone
    have hvalue := toNat_unit hone
    constructor
    · rw [← Bool.not_eq_true, isLeadingSurrogate_iff, hvalue]
      omega
    · rw [← Bool.not_eq_true, isTrailingSurrogate_iff, hvalue]
      omega
  · rename_i hpair
    obtain ⟨high, hhigh⟩ : ∃ high, high = 0xD800 + (point - 0x10000) / 0x400 := ⟨_, rfl⟩
    obtain ⟨low, hlow⟩ : ∃ low, low = 0xDC00 + (point - 0x10000) % 0x400 := ⟨_, rfl⟩
    rw [← hhigh, ← hlow, WellFormed, if_pos]
    · trivial
    · rw [isLeadingSurrogate_iff, isTrailingSurrogate_iff, toNat_unit (by omega : high < 0x10000),
        toNat_unit (by omega : low < 0x10000)]
      omega

/-- What went through bytes has no lone surrogates. -/
theorem wellFormed_decode_encode (text : JSString) : WellFormed (decode (encode text)) := by
  unfold decode
  fun_induction encode text with
  | case1 => trivial
  | case2 unit =>
    have hscalar := isScalar_unitPoint unit
    rw [← List.append_nil (encodePoint _), decodeFrom_encodePoint hscalar, decodeFrom,
      List.append_nil]
    exact wellFormed_utf16 hscalar
  | case3 unit next tail hpair ih =>
    have hscalar := (utf16_pairPoint hpair.1 hpair.2).1
    rw [decodeFrom_encodePoint hscalar]
    generalize pairPoint unit next = point at hscalar ⊢
    exact (wellFormed_utf16 hscalar).append ih
  | case4 unit next tail hpair ih =>
    have hscalar := isScalar_unitPoint unit
    rw [decodeFrom_encodePoint hscalar]
    exact (wellFormed_utf16 hscalar).append ih

/-- A string comes back from its bytes exactly if its surrogates stand in pairs. -/
theorem decode_encode_iff {text : JSString} : decode (encode text) = text ↔ WellFormed text := by
  constructor
  · intro h
    rw [← h]
    exact wellFormed_decode_encode text
  · exact decode_encode

/-- A unit below `0x80` is its own byte. -/
theorem encode_cons_of_lt {unit : CodeUnit} (h : unit.toNat < 0x80) (rest : JSString) :
    encode (unit :: rest) = .ofNat 8 unit.toNat :: encode rest := by
  have hscalar : IsScalar unit.toNat := .inl (by omega)
  have hunit : utf16 unit.toNat = [unit] := by rw [utf16, if_pos (by omega), eq_ofNat rfl]
  have happend := encode_utf16_append hscalar rest
  rw [hunit, encodePoint, if_pos h] at happend
  exact happend

/-- A string can be cut in front of a unit below `0x80`. -/
theorem encode_append_cons {unit : CodeUnit} (h : unit.toNat < 0x80) (left right : JSString) :
    encode (left ++ unit :: right) = encode left ++ .ofNat 8 unit.toNat :: encode right := by
  have hnot : isTrailingSurrogate unit = false := by
    rw [← Bool.not_eq_true, isTrailingSurrogate_iff]
    omega
  rw [← encode_cons_of_lt h]
  fun_induction encode left with
  | case1 => rfl
  | case2 last =>
    rw [List.singleton_append, encode, if_neg (by simp [hnot])]
  | case3 first next tail hpair ih =>
    rw [List.cons_append, List.cons_append, encode, if_pos hpair, ih, List.append_assoc]
  | case4 first next tail hpair ih =>
    rw [List.cons_append, List.cons_append, encode, if_neg hpair, List.append_assoc, ← ih]
    rfl

theorem asciiBytes_encodePoint {point : ℕ} (hlower : 0x80 ≤ point) (hupper : point < 0x110000) :
    asciiBytes (encodePoint point) = [] := by
  have hbyte {value : ℕ} (hlower : 0x80 ≤ value) (hupper : value < 0x100) (bytes : List Byte) :
      asciiBytes (.ofNat 8 value :: bytes) = asciiBytes bytes := by
    rw [asciiBytes_cons, toNat_byte hupper, if_neg (by omega), List.nil_append]
  have hnil : asciiBytes [] = [] := rfl
  rw [encodePoint, if_neg (by omega)]
  split
  · rw [hbyte (by omega) (by omega), hbyte (by omega) (by omega), hnil]
  split
  · rw [hbyte (by omega) (by omega), hbyte (by omega) (by omega), hbyte (by omega) (by omega),
      hnil]
  · rw [hbyte (by omega) (by omega), hbyte (by omega) (by omega), hbyte (by omega) (by omega),
      hbyte (by omega) (by omega), hnil]

theorem asciiBytes_unitPoint (unit : CodeUnit) :
    asciiBytes (encodePoint (unitPoint unit)) = asciiPart [unit] := by
  rw [asciiPart_cons]
  by_cases hlone : isLeadingSurrogate unit = true ∨ isTrailingSurrogate unit = true
  · have hlarge : 0xD800 ≤ unit.toNat := by
      rw [isLeadingSurrogate_iff, isTrailingSurrogate_iff] at hlone
      omega
    rw [unitPoint, if_pos hlone, asciiBytes_encodePoint (by decide) (by decide),
      if_neg (by omega)]
    rfl
  · have hlt := unit.isLt
    rw [unitPoint, if_neg hlone]
    by_cases hsmall : unit.toNat < 0x80
    · rw [if_pos hsmall, encodePoint, if_pos hsmall, asciiBytes_cons, toNat_byte (by omega),
        if_pos hsmall, asciiUnit, toNat_byte (by omega), eq_ofNat rfl]
      rfl
    · rw [if_neg hsmall, asciiBytes_encodePoint (by omega) (by omega)]
      rfl

/-- The bytes below `0x80` are the units below `0x80`. -/
theorem asciiBytes_encode (text : JSString) : asciiBytes (encode text) = asciiPart text := by
  fun_induction encode text with
  | case1 => rfl
  | case2 unit => exact asciiBytes_unitPoint unit
  | case3 unit next tail hpair ih =>
    have hunit := isLeadingSurrogate_iff.1 hpair.1
    have hnext := isTrailingSurrogate_iff.1 hpair.2
    have hlower : 0x80 ≤ pairPoint unit next := by
      unfold pairPoint
      omega
    have hupper : pairPoint unit next < 0x110000 := by
      unfold pairPoint
      omega
    rw [asciiBytes_append, asciiBytes_encodePoint hlower hupper, ih, asciiPart_cons,
      asciiPart_cons, if_neg (by omega), if_neg (by omega)]
    rfl
  | case4 unit next tail hpair ih =>
    rw [asciiBytes_append, asciiBytes_unitPoint, ih, ← asciiPart_append]
    rfl

/-- Another unit below `0x80` than those of a string is no byte of it. -/
theorem notMem_encode {unit : CodeUnit} (h : unit.toNat < 0x80) {text : JSString}
    (hnot : unit ∉ text) : BitVec.ofNat 8 unit.toNat ∉ encode text := by
  intro hmem
  have hvalue := toNat_byte (by omega : unit.toNat < 0x100)
  have hbyte : asciiUnit (.ofNat 8 unit.toNat) ∈ asciiBytes (encode text) := by
    apply List.mem_map_of_mem
    exact List.mem_filter.2 ⟨hmem, by rw [hvalue]; simpa using h⟩
  rw [asciiBytes_encode, asciiUnit, hvalue, eq_ofNat rfl] at hbyte
  exact hnot (List.mem_of_mem_filter hbyte)

/-- A code point has at least as many bytes as units. -/
theorem length_utf16_le (point : ℕ) :
    1 ≤ (encodePoint point).length ∧ (utf16 point).length ≤ (encodePoint point).length := by
  by_cases hone : point < 0x10000
  · have hunits : (utf16 point).length = 1 := by rw [utf16, if_pos hone, List.length_singleton]
    rw [hunits, and_self, encodePoint, if_pos hone]
    split
    · exact le_rfl
    · split
      · exact Nat.le_add_left 1 1
      · exact Nat.le_add_left 1 2
  · rw [utf16, if_neg hone, encodePoint, if_neg (by omega), if_neg (by omega), if_neg hone]
    exact ⟨Nat.le_add_left 1 3, Nat.le_add_left 2 2⟩

theorem length_le_length_encode (text : JSString) : text.length ≤ (encode text).length := by
  fun_induction encode text with
  | case1 => exact le_rfl
  | case2 unit => exact (length_utf16_le _).1
  | case3 unit next tail hpair ih =>
    have hpoint := (length_utf16_le (pairPoint unit next)).2
    rw [(utf16_pairPoint hpair.1 hpair.2).2] at hpoint
    simp only [List.length_cons, List.length_nil, List.length_append] at ih hpoint ⊢
    omega
  | case4 unit next tail hpair ih =>
    have hpoint := (length_utf16_le (unitPoint unit)).1
    simp only [List.length_cons, List.length_append] at ih ⊢
    omega

/-- A string of units below `0x80` shares its bytes with no other string. -/
theorem eq_of_encode_eq {left right : JSString} (hright : ∀ unit ∈ right, unit.toNat < 0x80)
    (h : encode left = encode right) : left = right := by
  have hpart : asciiPart left = right := by
    rw [← asciiBytes_encode, h, asciiBytes_encode]
    exact List.filter_eq_self.2 fun unit hunit ↦ decide_eq_true (hright unit hunit)
  have hlength := length_le_length_encode left
  rw [h, encode_of_lt hright, List.length_map, ← hpart] at hlength
  rw [← hpart]
  exact (List.filter_sublist.eq_of_length_le hlength).symm

end P2PApp.Utf8

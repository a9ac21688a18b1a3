import Timeshare.Machine.Encoding

namespace Timeshare

/-!
# Instruction words

Every instruction has one word, and a word that has an instruction is the word of that instruction.  So
reading and writing are inverse to each other, and the words that are no instruction can be told by
their digits.

* `lookup_eq_some_iff` — looking up a number in a table that is in the order of the numbers.
* `Instruction.ReadsFrom i n` — the fields of the instruction `i` are the digits of the number `n`; there is
  one such number (`Instruction.readsFrom_iff`).
* `Instruction.decode_cases` — how reading a word ends, by its digits.
* `Instruction.word_format` — which words are read, as what, and which is the fault of the others.
-/

/-! ### Tables -/

section Table

variable {α : Type} {table : List α} {code : α → Nat}

/-- A table that lists things in the order of their numbers has each of them at its number:
    `table[n]? = some x` says `code x = n`, if the numbers of the table are `0, 1, …` and everything
    is in it. -/
theorem lookup_eq_some_iff (horder : table.map code = List.range table.length)
    (hall : ∀ x, x ∈ table) {n : Nat} {x : α} : table[n]? = some x ↔ code x = n := by
  have hcode : ∀ {m : Nat}, table[m]? = some x → code x = m := by
    intro m h
    obtain ⟨hm, -⟩ := List.getElem?_eq_some_iff.mp h
    have hmap : (table.map code)[m]? = some (code x) := by rw [List.getElem?_map, h, Option.map_some]
    rw [horder, List.getElem?_range hm] at hmap
    exact (Option.some.inj hmap).symm
  constructor
  · exact hcode
  · rintro rfl
    obtain ⟨m, hm⟩ := List.getElem?_of_mem (hall x)
    rw [hcode hm, hm]

end Table

namespace Opcode

/-- The opcode of a number is the one that has it: `ofCode? n = some o` says `o.code = n`. -/
theorem ofCode?_eq_some_iff {n : Nat} {o : Opcode} : ofCode? n = some o ↔ o.code = n :=
  lookup_eq_some_iff (by decide) (fun o => by cases o <;> decide)

/-- The numbers above 12 have no opcode. -/
theorem ofCode?_eq_none_iff {n : Nat} : ofCode? n = none ↔ 12 < n := List.getElem?_eq_none_iff

end Opcode

namespace AddressingMode

/-- The mode of a number is the one that has it: `ofCode? n = some m` says `m.code = n`. -/
theorem ofCode?_eq_some_iff {n : Nat} {m : AddressingMode} : ofCode? n = some m ↔ m.code = n :=
  lookup_eq_some_iff (by decide) (fun m => by cases m <;> decide)

/-- The numbers above 6 have no addressing mode. -/
theorem ofCode?_eq_none_iff {n : Nat} : ofCode? n = none ↔ 6 < n := List.getElem?_eq_none_iff

end AddressingMode

namespace Register

/-- A digit names the register with its value: `ofDigit? d = some r` says `r.val = d`. -/
theorem ofDigit?_eq_some_iff {d : Nat} {r : Register} : ofDigit? d = some r ↔ r.val = d := by
  unfold ofDigit?
  constructor
  · intro h
    split at h
    · rw [← Option.some.inj h]
    · exact absurd h (by simp)
  · rintro rfl
    rw [dif_pos r.isLt]

end Register

namespace Instruction

variable {w : Word} {i : Instruction} {n : Nat}

/-! ### The digits of a word -/

/-- The fields of an instruction are the digits of a number `n`: the opcode is `n / 10000`, what
    stands in front of the last four, and each of these is a field of an operand. -/
structure ReadsFrom (i : Instruction) (n : Nat) : Prop where
  opcode : i.opcode.code = n / 10000
  mode₁ : i.first.mode.code = n / 1000 % 10
  register₁ : i.first.register.val = n / 100 % 10
  mode₂ : i.second.mode.code = n / 10 % 10
  register₂ : i.second.register.val = n % 10

/-- The number of an instruction is the one that has its fields for digits: `i.ReadsFrom n` says
    `i.encodeNat = n`. -/
theorem readsFrom_iff : i.ReadsFrom n ↔ i.encodeNat = n := by
  have := i.first.mode.code_lt
  have := i.first.register.isLt
  have := i.second.mode.code_lt
  have := i.second.register.isLt
  unfold encodeNat
  constructor
  · rintro ⟨_, _, _, _, _⟩
    omega
  · rintro rfl
    constructor <;> omega

/-- The number of an instruction is small, so that its word is that number:
    `i.encode.toInt = i.encodeNat`. -/
theorem toInt_encode (i : Instruction) : i.encode.toInt = i.encodeNat := by
  have := i.opcode.code_lt
  have := i.first.mode.code_lt
  have := i.first.register.isLt
  have := i.second.mode.code_lt
  have := i.second.register.isLt
  unfold encode
  refine Int64.toInt_ofNat_of_lt ?_
  unfold encodeNat
  omega

/-- Words are compared by their numbers: `i.encode = w` says `i.encodeNat = w.toInt`. -/
theorem encode_eq_iff : i.encode = w ↔ (i.encodeNat : Int) = w.toInt := by
  rw [← Int64.toInt_inj, toInt_encode]

/-! ### Reading -/

/-- The opcode of a word is unknown: the word is negative, or what stands in front of its last four
    digits exceeds 12. -/
def NoOpcode (w : Int) : Prop := w < 0 ∨ 12 < w / 10000

/-- One of the two mode digits of a word is unknown, that is, above 6. -/
def NoMode (w : Int) : Prop := 6 < w / 1000 % 10 ∨ 6 < w / 10 % 10

/-- One of the two register digits of a word names no register, that is, it is above 7. -/
def NoRegister (w : Int) : Prop := 7 < w / 100 % 10 ∨ 7 < w % 10

/-- Reads the operands of an instruction from the number `n` of its word: both modes are looked at
    before the registers. -/
def ofDigits (o : Opcode) (n : Nat) : Except Fault Instruction :=
  match AddressingMode.ofCode? (n / 1000 % 10), AddressingMode.ofCode? (n / 10 % 10) with
  | some m₁, some m₂ =>
    match Register.ofDigit? (n / 100 % 10), Register.ofDigit? (n % 10) with
    | some r₁, some r₂ => .ok ⟨o, ⟨m₁, r₁⟩, ⟨m₂, r₂⟩⟩
    | _, _ => .error .invalidRegister
  | _, _ => .error .invalidMode

/-- The word of a number `n` is read by its opcode first, and then by `ofDigits`. -/
theorem decode_of_nonneg (h : w.toInt = n) :
    decode w = match Opcode.ofCode? (n / 10000) with
      | none => .error .invalidOpcode
      | some o => ofDigits o n := by
  have hneg : ¬ w < 0 := by
    rw [Int64.lt_iff_toInt_lt, h]
    exact Int.not_lt.mpr (Int.natCast_nonneg n)
  have hn : w.toNatClampNeg = n := by
    show w.toInt.toNat = n
    rw [h, Int.toNat_natCast]
  unfold decode
  rw [if_neg hneg, hn]
  rfl

/-- A word with an unknown opcode is `invalidOpcode`, whatever its other digits. -/
theorem decode_of_noOpcode (h : NoOpcode w.toInt) : decode w = .error .invalidOpcode := by
  rcases Int.lt_or_le w.toInt 0 with hneg | hnonneg
  · unfold decode
    rw [if_pos (Int64.lt_iff_toInt_lt.mpr hneg)]
  · obtain ⟨n, hn⟩ := Int.eq_ofNat_of_zero_le hnonneg
    have hnone : Opcode.ofCode? (n / 10000) = none := by
      rw [Opcode.ofCode?_eq_none_iff]
      unfold NoOpcode at h
      omega
    rw [decode_of_nonneg hn, hnone]

/-- A word whose opcode is known has a number `n` and is read as `ofDigits o n`, with the opcode `o`
    of `n / 10000`. -/
theorem decode_of_opcode (h : ¬ NoOpcode w.toInt) :
    ∃ (n : Nat) (o : Opcode), w.toInt = n ∧ o.code = n / 10000 ∧ decode w = ofDigits o n := by
  unfold NoOpcode at h
  obtain ⟨n, hn⟩ := Int.eq_ofNat_of_zero_le (a := w.toInt) (by omega)
  cases ho : Opcode.ofCode? (n / 10000) with
  | none =>
    have := Opcode.ofCode?_eq_none_iff.mp ho
    omega
  | some o =>
    refine ⟨n, o, hn, Opcode.ofCode?_eq_some_iff.mp ho, ?_⟩
    rw [decode_of_nonneg hn, ho]

variable {o : Opcode}

/-- The modes of both operands are read before their registers: a wrong one is `invalidMode`. -/
theorem ofDigits_of_noMode (h : NoMode n) : ofDigits o n = .error .invalidMode := by
  unfold ofDigits
  split
  · rename_i m₁ m₂ h₁ h₂
    have := AddressingMode.ofCode?_eq_some_iff.mp h₁
    have := AddressingMode.ofCode?_eq_some_iff.mp h₂
    have := m₁.code_lt
    have := m₂.code_lt
    unfold NoMode at h
    omega
  · rfl

/-- Where both modes are known, they are those of the digits, and the registers decide how
    `ofDigits o n` ends. -/
theorem ofDigits_of_modes (h : ¬ NoMode n) :
    ∃ m₁ m₂ : AddressingMode, m₁.code = n / 1000 % 10 ∧ m₂.code = n / 10 % 10
      ∧ ofDigits o n = match Register.ofDigit? (n / 100 % 10), Register.ofDigit? (n % 10) with
        | some r₁, some r₂ => .ok ⟨o, ⟨m₁, r₁⟩, ⟨m₂, r₂⟩⟩
        | _, _ => .error .invalidRegister := by
  unfold NoMode at h
  unfold ofDigits
  -- A digit without a mode would be one of those that `h` excludes.
  cases h₁ : AddressingMode.ofCode? (n / 1000 % 10) with
  | none =>
    have := AddressingMode.ofCode?_eq_none_iff.mp h₁
    omega
  | some m₁ =>
    cases h₂ : AddressingMode.ofCode? (n / 10 % 10) with
    | none =>
      have := AddressingMode.ofCode?_eq_none_iff.mp h₂
      omega
    | some m₂ =>
      exact ⟨m₁, m₂, AddressingMode.ofCode?_eq_some_iff.mp h₁,
        AddressingMode.ofCode?_eq_some_iff.mp h₂, rfl⟩

/-- Where both modes are known and a register is not, `ofDigits o n` is `invalidRegister`. -/
theorem ofDigits_of_noRegister (hmode : ¬ NoMode n) (h : NoRegister n) :
    ofDigits o n = .error .invalidRegister := by
  obtain ⟨m₁, m₂, -, -, heq⟩ := ofDigits_of_modes (o := o) hmode
  rw [heq]
  split
  · rename_i r₁ r₂ h₁ h₂
    have := Register.ofDigit?_eq_some_iff.mp h₁
    have := Register.ofDigit?_eq_some_iff.mp h₂
    unfold NoRegister at h
    omega
  · rfl

/-- Where all digits are known, `ofDigits o n` is the instruction with the number `n`. -/
theorem ofDigits_of_registers (hmode : ¬ NoMode n) (h : ¬ NoRegister n)
    (ho : o.code = n / 10000) : ∃ i, ofDigits o n = .ok i ∧ i.encodeNat = n := by
  obtain ⟨m₁, m₂, hm₁, hm₂, heq⟩ := ofDigits_of_modes (o := o) hmode
  unfold NoRegister at h
  let r₁ : Register := ⟨n / 100 % 10, by omega⟩
  let r₂ : Register := ⟨n % 10, by omega⟩
  refine ⟨⟨o, ⟨m₁, r₁⟩, ⟨m₂, r₂⟩⟩, ?_, readsFrom_iff.mp ⟨ho, hm₁, rfl, hm₂, rfl⟩⟩
  have h₁ : Register.ofDigit? (n / 100 % 10) = some r₁ := Register.ofDigit?_eq_some_iff.mpr rfl
  have h₂ : Register.ofDigit? (n % 10) = some r₂ := Register.ofDigit?_eq_some_iff.mpr rfl
  rw [heq, h₁, h₂]

/-- How reading a word ends: the fields are looked at by kind, and the first kind that has a wrong
    one decides.  If none has, the word is read as an instruction `i` with `i.encode = w`. -/
theorem decode_cases (w : Word) :
    (NoOpcode w.toInt ∧ decode w = .error .invalidOpcode)
      ∨ (¬ NoOpcode w.toInt ∧ NoMode w.toInt ∧ decode w = .error .invalidMode)
      ∨ (¬ NoOpcode w.toInt ∧ ¬ NoMode w.toInt ∧ NoRegister w.toInt
        ∧ decode w = .error .invalidRegister)
      ∨ (¬ NoOpcode w.toInt ∧ ¬ NoMode w.toInt ∧ ¬ NoRegister w.toInt
        ∧ ∃ i, decode w = .ok i ∧ i.encode = w) := by
  -- The fields in the order in which they are looked at; each case has the ones before it known.
  by_cases hopcode : NoOpcode w.toInt
  · exact .inl ⟨hopcode, decode_of_noOpcode hopcode⟩
  refine .inr ?_
  obtain ⟨n, o, hn, ho, hdecode⟩ := decode_of_opcode hopcode
  rw [hn] at hopcode ⊢
  rw [hdecode]
  by_cases hmode : NoMode n
  · exact .inl ⟨hopcode, hmode, ofDigits_of_noMode hmode⟩
  refine .inr ?_
  by_cases hregister : NoRegister n
  · exact .inl ⟨hopcode, hmode, hregister, ofDigits_of_noRegister hmode hregister⟩
  obtain ⟨i, hi, henc⟩ := ofDigits_of_registers hmode hregister ho
  have hword : i.encode = w := by rw [encode_eq_iff, henc, hn]
  exact .inr ⟨hopcode, hmode, hregister, i, hi, hword⟩

/-- Reading the word of an instruction gives the instruction: `decode i.encode = .ok i`. -/
theorem decode_encode (i : Instruction) : decode i.encode = .ok i := by
  obtain ⟨ho, hm₁, hr₁, hm₂, hr₂⟩ : i.ReadsFrom i.encodeNat := readsFrom_iff.mpr rfl
  rw [decode_of_nonneg i.toInt_encode, Opcode.ofCode?_eq_some_iff.mpr ho]
  unfold ofDigits
  rw [AddressingMode.ofCode?_eq_some_iff.mpr hm₁, AddressingMode.ofCode?_eq_some_iff.mpr hm₂,
    Register.ofDigit?_eq_some_iff.mpr hr₁, Register.ofDigit?_eq_some_iff.mpr hr₂]

/-- A word is read as an instruction only if it is the word of that instruction: `decode w = .ok i`
    says `i.encode = w`. -/
theorem decode_eq_ok_iff : decode w = .ok i ↔ i.encode = w := by
  constructor
  · intro h
    rcases decode_cases w with ⟨-, he⟩ | ⟨-, -, he⟩ | ⟨-, -, -, he⟩ | ⟨-, -, -, j, hj, henc⟩
    · rw [h] at he
      exact absurd he (by simp)
    · rw [h] at he
      exact absurd he (by simp)
    · rw [h] at he
      exact absurd he (by simp)
    · rw [Except.ok.inj (h.symm.trans hj), henc]
  · rintro rfl
    exact decode_encode i

/-- **The format of instruction words.**  A word is read as an instruction if its digits are those of one,
    and then it is the word of that instruction.  Of the other words the first wrong field makes the
    fault: the opcode, then the modes, then the registers.  The word of an instruction is the sum of its
    fields at their places, and is read as the instruction. -/
theorem word_format :
    (∀ w : Word,
      let n := w.toInt
      ((∃ i, decode w = .ok i) ↔ 0 ≤ n ∧ n / 10000 ≤ 12
        ∧ (n / 1000 % 10 ≤ 6 ∧ n / 10 % 10 ≤ 6) ∧ (n / 100 % 10 ≤ 7 ∧ n % 10 ≤ 7))
      ∧ (∀ i, decode w = .ok i → i.encode = w)
      ∧ (decode w = .error .invalidOpcode ↔ NoOpcode n)
      ∧ (decode w = .error .invalidMode ↔ ¬ NoOpcode n ∧ NoMode n)
      ∧ (decode w = .error .invalidRegister ↔ ¬ NoOpcode n ∧ ¬ NoMode n ∧ NoRegister n))
    ∧ ∀ i : Instruction, decode i.encode = .ok i ∧ i.encode.toInt = i.encodeNat := by
  refine ⟨fun w => ?_, fun i => ⟨decode_encode i, toInt_encode i⟩⟩
  intro n
  -- The bounds on the digits are what is left when none of the three kinds of faults applies.
  have hdigits : (0 ≤ n ∧ n / 10000 ≤ 12 ∧ (n / 1000 % 10 ≤ 6 ∧ n / 10 % 10 ≤ 6)
      ∧ (n / 100 % 10 ≤ 7 ∧ n % 10 ≤ 7)) ↔ ¬ NoOpcode n ∧ ¬ NoMode n ∧ ¬ NoRegister n := by
    unfold NoOpcode NoMode NoRegister
    omega
  rw [hdigits]
  rw [and_left_comm]
  refine ⟨fun i => decode_eq_ok_iff.mp, ?_⟩
  rcases decode_cases w with ⟨ho, h⟩ | ⟨ho, hm, h⟩ | ⟨ho, hm, hr, h⟩ | ⟨ho, hm, hr, i, h, -⟩
  · simp [h, n, ho]
  · simp [h, n, ho, hm]
  · simp [h, n, ho, hm, hr]
  · simp [h, n, ho, hm, hr]

/-- The word of an instruction, and a word that has a wrong mode as well as a wrong register. -/
theorem word_format_mode_first :
    (∃ i, decode 51060 = .ok i ∧ i.encode = 51060) ∧ decode 17980 = .error .invalidMode := by
  obtain ⟨hwords, -⟩ := word_format
  constructor
  · obtain ⟨hread, hencode, -⟩ := hwords 51060
    obtain ⟨i, hi⟩ := hread.mpr (by decide)
    exact ⟨i, hi, hencode i hi⟩
  · obtain ⟨-, -, -, hmode, -⟩ := hwords 17980
    refine hmode.mpr ?_
    unfold NoOpcode NoMode
    decide

end Instruction

end Timeshare

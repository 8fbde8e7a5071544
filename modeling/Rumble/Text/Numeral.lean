namespace Rumble.Text

def decimal (n : Nat) : List Char := Nat.toDigits 10 n

/-- The value of a digit of the given base; letters count in either case. -/
def digit? (base : Nat) (c : Char) : Option Nat :=
  let n := c.toNat
  let v :=
    if 0x30 ≤ n ∧ n ≤ 0x39 then n - 0x30
    else if 0x61 ≤ n ∧ n ≤ 0x7a then n - 0x61 + 10
    else if 0x41 ≤ n ∧ n ≤ 0x5a then n - 0x41 + 10
    else base
  if v < base then some v else none

def digits? (base : Nat) (cs : List Char) : Option Nat :=
  cs.foldlM (fun n c => (digit? base c).map (base * n + ·)) 0

def numeral? (base : Nat) : List Char → Option Nat
  | [] => none
  | ['+'] => none
  | '+' :: cs => digits? base cs
  | cs => digits? base cs

def word32? (n : Nat) : Option UInt32 :=
  if h : n < UInt32.size then some (UInt32.ofNatLT n h) else none

def readWord? (cs : List Char) : Option UInt32 := (numeral? 10 cs).bind word32?

/-- Reads a numeral below 2^32 that is decimal, or hexadecimal after `0x` or `0X`. -/
def readWordOrHex? : List Char → Option UInt32
  | '0' :: 'x' :: cs => (numeral? 16 cs).bind word32?
  | '0' :: 'X' :: cs => (numeral? 16 cs).bind word32?
  | cs => readWord? cs

def showWord (n : UInt32) : String := String.ofList (decimal n.toNat)

theorem toNat_of_isDigit {c : Char} (h : c.isDigit) : 48 ≤ c.toNat ∧ c.toNat ≤ 57 := by
  simp only [Char.isDigit, Bool.and_eq_true, decide_eq_true_eq, UInt32.le_iff_toNat_le] at h
  exact h

theorem digit?_of_isDigit {c : Char} (h : c.isDigit) :
    digit? 10 c = some (c.toNat - '0'.toNat) := by
  have hc := toNat_of_isDigit h
  have h0 : '0'.toNat = 48 := rfl
  rw [digit?, if_pos hc, h0]
  exact if_pos (by omega)

theorem foldlM_digit? {cs : List Char} (h : ∀ c ∈ cs, c.isDigit) (n : Nat) :
    cs.foldlM (fun n c => (digit? 10 c).map (10 * n + ·)) n = some (Nat.ofDigitChars 10 cs n) := by
  induction cs generalizing n with
  | nil => rfl
  | cons c cs ih =>
    rw [List.foldlM_cons, digit?_of_isDigit (h c List.mem_cons_self)]
    exact ih (fun d hd => h d (List.mem_cons_of_mem c hd)) _

theorem isDigit_of_mem_decimal {n : Nat} {c : Char} (h : c ∈ decimal n) : c.isDigit :=
  Nat.isDigit_of_mem_toDigits (by decide) (by decide) h

/-- The only numeral with a leading zero is that of zero. -/
theorem eq_zero_of_decimal_eq {k : Nat} {cs : List Char} (h : decimal k = '0' :: cs) :
    k = 0 := by
  induction k using Nat.strongRecOn generalizing cs with
  | ind k ih =>
    rw [decimal, Nat.toDigits_eq_if (by decide)] at h
    split at h
    · next hk =>
      have hc : Nat.digitChar k = '0' := (List.cons.inj h).1
      have hall : ∀ d < 10, Nat.digitChar d = '0' → d = 0 := by decide
      exact hall k hk hc
    · next hk =>
      exfalso
      cases hq : Nat.toDigits 10 (k / 10) with
      | nil => exact Nat.toDigits_ne_nil hq
      | cons d ds =>
        rw [hq, List.cons_append] at h
        have hd : d = '0' := (List.cons.inj h).1
        subst hd
        have hz := ih (k / 10) (by omega) hq
        omega

theorem digits?_decimal (n : Nat) : digits? 10 (decimal n) = some n := by
  rw [digits?, foldlM_digit? fun _ => isDigit_of_mem_decimal, decimal,
    Nat.ofDigitChars_toDigits (by decide) (by decide)]

theorem numeral?_decimal (n : Nat) : numeral? 10 (decimal n) = some n := by
  unfold numeral?
  split
  · next h => exact absurd h Nat.toDigits_ne_nil
  · next h => exact absurd (isDigit_of_mem_decimal (n := n) (c := '+') (by simp [h])) (by decide)
  · next h => exact absurd (isDigit_of_mem_decimal (n := n) (c := '+') (by simp [h])) (by decide)
  · exact digits?_decimal n

@[simp] theorem word32?_toNat (n : UInt32) : word32? n.toNat = some n := by
  rw [word32?, dif_pos n.toNat_lt]
  simp

theorem readWord?_showWord (n : UInt32) : readWord? (showWord n).toList = some n := by
  simp [readWord?, showWord, numeral?_decimal]

end Rumble.Text

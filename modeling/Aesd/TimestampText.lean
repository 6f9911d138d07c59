import Aesd.PaddedDecimals

/-! The text that get_timestamp_str makes of a time. strftime is in the C locale, since no
    call of setlocale changes it, and of its conversions those in the one format are here. -/
namespace TimestampText
open PaddedDecimals

/-- What the format looks at in what localtime returns. tm_year counts from 1900, and
    tm_gmtoff is in seconds. -/
structure Tm where
  tmSec : Fin 61
  tmMin : Fin 60
  tmHour : Fin 24
  tmMday : Fin 32
  tmMon : Fin 12
  tmYear : Int32
  tmWday : Fin 7
  tmGmtoff : Int32
  deriving DecidableEq, Repr

abbrev maxTimestampLen : Nat := 998

def dayNames : Fin 7 → List Char
  | 0 => ['S', 'u', 'n']
  | 1 => ['M', 'o', 'n']
  | 2 => ['T', 'u', 'e']
  | 3 => ['W', 'e', 'd']
  | 4 => ['T', 'h', 'u']
  | 5 => ['F', 'r', 'i']
  | 6 => ['S', 'a', 't']

def monthNames : Fin 12 → List Char
  | 0 => ['J', 'a', 'n']
  | 1 => ['F', 'e', 'b']
  | 2 => ['M', 'a', 'r']
  | 3 => ['A', 'p', 'r']
  | 4 => ['M', 'a', 'y']
  | 5 => ['J', 'u', 'n']
  | 6 => ['J', 'u', 'l']
  | 7 => ['A', 'u', 'g']
  | 8 => ['S', 'e', 'p']
  | 9 => ['O', 'c', 't']
  | 10 => ['N', 'o', 'v']
  | 11 => ['D', 'e', 'c']

def yearText (year : Int) : List Char :=
  if year < 0 then '-' :: padded 1 year.natAbs else padded 1 year.natAbs

def offsetText (seconds : Int) : List Char :=
  let minutes := seconds.natAbs / 60
  (if seconds < 0 then '-' else '+') :: padded 4 (minutes / 60 * 100 + minutes % 60)

def conversion (tm : Tm) : Char → List Char
  | 'a' => dayNames tm.tmWday
  | 'd' => padded 2 tm.tmMday
  | 'b' => monthNames tm.tmMon
  | 'Y' => yearText (tm.tmYear.toInt + 1900)
  | 'T' => padded 2 tm.tmHour ++ ':' :: padded 2 tm.tmMin ++ ':' :: padded 2 tm.tmSec
  | 'z' => offsetText tm.tmGmtoff.toInt
  | other => ['%', other]

def expand (tm : Tm) : List Char → List Char
  | '%' :: specifier :: rest => conversion tm specifier ++ expand tm rest
  | c :: rest => c :: expand tm rest
  | [] => []

/-- What strftime stores before the NUL. If it does not fit, the array is indeterminate. -/
def strftime (max : Nat) (format : List Char) (tm : Tm) : Option (List Char) :=
  if (expand tm format).length < max then some (expand tm format) else none

/-- "%a, %d %b %Y %T %z" -/
def timestampFormat : List Char :=
  ['%', 'a', ',', ' ', '%', 'd', ' ', '%', 'b', ' ', '%', 'Y', ' ', '%', 'T', ' ', '%', 'z']

def asBytes (text : List Char) : List UInt8 := text.map fun c => UInt8.ofNat c.toNat

def getTimestampStr (humanTime : Tm) : Option (List UInt8) :=
  (strftime maxTimestampLen timestampFormat humanTime).map asBytes

def Printable (c : Char) : Prop := 32 ≤ c.toNat ∧ c.toNat < 127

instance (c : Char) : Decidable (Printable c) := inferInstanceAs (Decidable (_ ∧ _))

theorem padded_printable (width n : Nat) : ∀ c ∈ padded width n, Printable c := by
  intro c member
  have isDigit := padded_digits width n c member
  simp only [Char.isDigit, Bool.and_eq_true, decide_eq_true_eq, ge_iff_le, UInt32.le_iff_toNat_le]
    at isDigit
  obtain ⟨low, high⟩ := isDigit
  constructor
  · exact Nat.le_trans (by decide) low
  · exact Nat.lt_of_le_of_lt high (by decide)

theorem dayNames_printable (day : Fin 7) : ∀ c ∈ dayNames day, Printable c := by
  match day with
  | 0 | 1 | 2 | 3 | 4 | 5 | 6 => simp [dayNames, Printable]

theorem monthNames_printable (month : Fin 12) : ∀ c ∈ monthNames month, Printable c := by
  match month with
  | 0 | 1 | 2 | 3 | 4 | 5 | 6 | 7 | 8 | 9 | 10 | 11 => simp [monthNames, Printable]

theorem yearText_printable (year : Int) : ∀ c ∈ yearText year, Printable c := by
  intro c member
  unfold yearText at member
  split at member
  · rcases List.mem_cons.mp member with rfl | digit
    · decide
    · exact padded_printable 1 _ c digit
  · exact padded_printable 1 _ c member

theorem offsetText_printable (seconds : Int) : ∀ c ∈ offsetText seconds, Printable c := by
  intro c member
  rcases List.mem_cons.mp member with rfl | digit
  · split <;> decide
  · exact padded_printable 4 _ c digit

theorem conversion_printable (tm : Tm) {specifier : Char}
    (known : specifier ∈ ['a', 'd', 'b', 'Y', 'T', 'z']) :
    ∀ c ∈ conversion tm specifier, Printable c := by
  simp only [List.mem_cons, List.not_mem_nil, or_false] at known
  rcases known with rfl | rfl | rfl | rfl | rfl | rfl
  · exact dayNames_printable _
  · exact padded_printable 2 _
  · exact monthNames_printable _
  · exact yearText_printable _
  · intro c member
    simp only [conversion, List.mem_append, List.mem_cons] at member
    rcases member with (hour | rfl | minute) | rfl | second
    · exact padded_printable 2 _ c hour
    · decide
    · exact padded_printable 2 _ c minute
    · decide
    · exact padded_printable 2 _ c second
  · exact offsetText_printable _

theorem expand_timestampFormat (tm : Tm) :
    expand tm timestampFormat = conversion tm 'a' ++ ',' :: ' ' :: (conversion tm 'd' ++
      ' ' :: (conversion tm 'b' ++ ' ' :: (conversion tm 'Y' ++ ' ' :: (conversion tm 'T' ++
        ' ' :: conversion tm 'z')))) := by
  simp [timestampFormat, expand]

theorem expand_printable (tm : Tm) : ∀ c ∈ expand tm timestampFormat, Printable c := by
  have space : Printable ' ' := by decide
  have comma : Printable ',' := by decide
  have known (specifier : Char) (here : specifier ∈ ['a', 'd', 'b', 'Y', 'T', 'z']) :=
    conversion_printable tm here
  rw [expand_timestampFormat]
  simp only [List.forall_mem_append, List.forall_mem_cons]
  exact ⟨known 'a' (by simp), comma, space, known 'd' (by simp), space, known 'b' (by simp), space,
    known 'Y' (by simp), space, known 'T' (by simp), space, known 'z' (by simp)⟩

theorem yearText_length (year : Int) (below : year.natAbs < 10 ^ 10) :
    (yearText year).length ≤ 11 := by
  have digits := (Nat.length_toDigits_le_iff (b := 10) (k := 10) (by omega) (by omega)).mpr below
  have year_digits : (padded 1 year.natAbs).length ≤ 10 := by
    simp only [padded, List.length_append, List.length_replicate]
    omega
  unfold yearText
  split
  · rw [List.length_cons]
    omega
  · omega

theorem offsetText_length (seconds : Int) (below : seconds.natAbs < 10 ^ 10) :
    (offsetText seconds).length ≤ 11 := by
  have small : seconds.natAbs / 60 / 60 * 100 + seconds.natAbs / 60 % 60 < 10 ^ 10 := by omega
  have digits := (Nat.length_toDigits_le_iff (b := 10) (k := 10) (by omega) (by omega)).mpr small
  simp only [offsetText, padded, List.length_cons, List.length_append, List.length_replicate]
  omega

theorem dayNames_length (day : Fin 7) : (dayNames day).length = 3 := by
  match day with
  | 0 | 1 | 2 | 3 | 4 | 5 | 6 => rfl

theorem monthNames_length (month : Fin 12) : (monthNames month).length = 3 := by
  match month with
  | 0 | 1 | 2 | 3 | 4 | 5 | 6 | 7 | 8 | 9 | 10 | 11 => rfl

theorem expand_fits (tm : Tm) : (expand tm timestampFormat).length < maxTimestampLen := by
  have year := yearText_length (tm.tmYear.toInt + 1900) (by
    have low := tm.tmYear.le_toInt
    have high := tm.tmYear.toInt_lt
    omega)
  have offset := offsetText_length tm.tmGmtoff.toInt (by
    have low := tm.tmGmtoff.le_toInt
    have high := tm.tmGmtoff.toInt_lt
    omega)
  have mday := @padded_length 2 tm.tmMday (by omega) (by omega)
  have hour := @padded_length 2 tm.tmHour (by omega) (by omega)
  have minute := @padded_length 2 tm.tmMin (by omega) (by omega)
  have second := @padded_length 2 tm.tmSec (by omega) (by omega)
  rw [expand_timestampFormat]
  simp only [conversion, List.length_append, List.length_cons, dayNames_length, monthNames_length,
    mday, hour, minute, second, maxTimestampLen]
  omega

/-- The array that calloc gave is always large enough, so the text is never indeterminate. -/
theorem getTimestampStr_eq (tm : Tm) :
    getTimestampStr tm = some (asBytes (expand tm timestampFormat)) := by
  rw [getTimestampStr, strftime, if_pos (expand_fits tm), Option.map_some]

/-- %s prints all of the text, and it stays on its line. -/
theorem timestamp_bytes_print {tm : Tm} {text : List UInt8} (made : getTimestampStr tm = some text) :
    ∀ b ∈ text, 32 ≤ b.toNat ∧ b.toNat < 127 := by
  rw [getTimestampStr_eq] at made
  obtain rfl := Option.some.inj made
  intro b member
  obtain ⟨c, inside, rfl⟩ := List.mem_map.mp member
  obtain ⟨low, high⟩ := expand_printable tm c inside
  rw [UInt8.toNat_ofNat']
  omega

/-- Thu, 01 Jan 1970 00:00:00 +0000 -/
def epoch : Tm := ⟨0, 0, 0, 1, 0, 70, 4, 0⟩

example : getTimestampStr epoch = some (asBytes ['T', 'h', 'u', ',', ' ', '0', '1', ' ', 'J', 'a', 'n',
    ' ', '1', '9', '7', '0', ' ', '0', '0', ':', '0', '0', ':', '0', '0', ' ', '+', '0', '0', '0',
    '0']) := by
  decide

end TimestampText

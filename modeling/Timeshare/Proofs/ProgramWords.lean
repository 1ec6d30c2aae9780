import Mathlib.Data.List.Find
import Mathlib.Data.List.Forall2
import Timeshare.Proofs.Hexadecimal

/-!
# Words of a program

Which texts are read as programs, and as which, and which word of any other text is named as the
fault. A word is read if it is a run of pairs of two hexadecimal digits, where a plus sign may stand
for the first digit of a pair (`isSignedRun`); the byte is then worth the second one. Without a plus
sign it is a run of pairs of digits (`isHexRun`). `ProgramText.ReadsAsPairs` is what would hold of
all texts if only these were read, and it is said exactly of which it holds.
-/
namespace Timeshare

/-- A hexadecimal digit in either letter case. -/
def isHexChar (c : Char) : Bool :=
  ('0' ≤ c && c ≤ '9') || ('a' ≤ c && c ≤ 'f') || ('A' ≤ c && c ≤ 'F')

namespace IsHexDigit

variable {value : Nat} {c : Char}

theorem isHexChar_eq (h : IsHexDigit value c) (hv : value < 16) : isHexChar c = true := by
  have hall : ∀ d : Fin 16, isHexChar d.1.digitChar = true ∧
      isHexChar d.1.digitChar.toUpper = true := by decide
  rcases h with rfl | rfl
  · exact (hall ⟨value, hv⟩).1
  · exact (hall ⟨value, hv⟩).2

theorem toUpper_eq (h : IsHexDigit value c) (hv : value < 16) :
    c.toUpper = value.digitChar.toUpper := by
  have hall : ∀ d : Fin 16, d.1.digitChar.toUpper.toUpper = d.1.digitChar.toUpper := by decide
  rcases h with rfl | rfl
  · rfl
  · exact hall ⟨value, hv⟩

end IsHexDigit

namespace Numeral

theorem digit?_eq_some_iff {c : Char} {d : Nat} :
    digit? 16 c = some d ↔ d < 16 ∧ IsHexDigit d c := by
  refine ⟨fun h => ?_, fun h => h.2.digit?_eq h.1⟩
  obtain ⟨hvalue, hd⟩ := Option.filter_eq_some_iff.1 h
  have hlt : d < 16 := of_decide_eq_true hd
  have hall : ∀ d : Fin 16, digitValue? c = some d.1 →
      c = d.1.digitChar ∨ c = d.1.digitChar.toUpper :=
    of_ascii (P := fun c => ∀ d : Fin 16, digitValue? c = some d.1 →
      c = d.1.digitChar ∨ c = d.1.digitChar.toUpper) (by decide +kernel)
      (ascii_of_digitValue? hvalue)
  exact ⟨hlt, hall ⟨d, hlt⟩ hvalue⟩

theorem digits?_one {c : Char} {n : Nat} : digits? 16 [c] = some n ↔ digit? 16 c = some n := by
  simp [digits?, digitsFrom?]

theorem digits?_two {a b : Char} {n : Nat} :
    digits? 16 [a, b] = some n ↔
      ∃ high low, digit? 16 a = some high ∧ digit? 16 b = some low ∧ high * 16 + low = n := by
  simp [digits?, digitsFrom?, Option.bind_eq_some_iff]

end Numeral

theorem isHexChar_iff {c : Char} : isHexChar c = true ↔ ∃ d < 16, IsHexDigit d c := by
  refine ⟨fun h => ?_, fun ⟨d, hd, hc⟩ => hc.isHexChar_eq hd⟩
  have hvalue : (Numeral.digitValue? c).isSome = true := by
    simp only [isHexChar, Bool.or_eq_true, Bool.and_eq_true, decide_eq_true_eq] at h
    unfold Numeral.digitValue?
    grind
  obtain ⟨value, hvalue⟩ := Option.isSome_iff_exists.1 hvalue
  have hdigit : (Numeral.digit? 16 c).isSome = true :=
    of_ascii (P := fun c => isHexChar c = true → (Numeral.digit? 16 c).isSome = true) (by decide)
      (Numeral.ascii_of_digitValue? hvalue) h
  obtain ⟨d, hd⟩ := Option.isSome_iff_exists.1 hdigit
  exact ⟨d, Numeral.digit?_eq_some_iff.1 hd⟩

namespace ProgramText

/-- Two characters that are read as a byte. -/
inductive Pair (byte : UInt8) : Char → Char → Prop
  | digits {high low : Char} (hhigh : IsHexDigit (byte.toNat / 16) high)
      (hlow : IsHexDigit (byte.toNat % 16) low) : Pair byte high low
  | signed {low : Char} (hsmall : byte.toNat < 16) (hlow : IsHexDigit byte.toNat low) :
      Pair byte '+' low

/-- A word of pairs, and the byte that each is read as. -/
inductive Pairs : List UInt8 → List Char → Prop
  | nil : Pairs [] []
  | cons {byte : UInt8} {a b : Char} {bytes : List UInt8} {word : List Char}
      (hpair : Pair byte a b) (h : Pairs bytes word) : Pairs (byte :: bytes) (a :: b :: word)

/-- Whether a word is made of pairs whose second character is a hexadecimal digit and whose first
one is allowed by `first`. -/
def isRunOf (first : Char → Bool) : List Char → Bool
  | [] => true
  | [_] => false
  | a :: b :: word => first a && isHexChar b && isRunOf first word

/-- A run of pairs of hexadecimal digits. -/
def isHexRun (word : List Char) : Bool := isRunOf isHexChar word

/-- A run of pairs of hexadecimal digits, with a plus sign in the place of any first digit. -/
def isSignedRun (word : List Char) : Bool := isRunOf (fun c => isHexChar c || c == '+') word

/-! ## Pairs -/

theorem read?_pair_iff {a b : Char} {n : Nat} :
    Numeral.read? 16 256 [a, b] = some n ↔ ∃ byte : UInt8, Pair byte a b ∧ byte.toNat = n := by
  constructor
  · intro h
    obtain ⟨hvalue, hn⟩ := Option.filter_eq_some_iff.1 h
    have hbyte : (n.toUInt8).toNat = n := UInt8.toNat_ofNat_of_lt' (of_decide_eq_true hn)
    refine ⟨n.toUInt8, ?_, hbyte⟩
    split at hvalue
    · rename_i digits hplus
      obtain ⟨rfl, rfl⟩ := List.cons.inj hplus
      obtain ⟨hsmall, hlow⟩ := Numeral.digit?_eq_some_iff.1 (Numeral.digits?_one.1 hvalue)
      exact .signed (hbyte.symm ▸ hsmall) (hbyte.symm ▸ hlow)
    · obtain ⟨high, low, hhigh, hlow, hsum⟩ := Numeral.digits?_two.1 hvalue
      obtain ⟨hhighlt, hhigh⟩ := Numeral.digit?_eq_some_iff.1 hhigh
      obtain ⟨hlowlt, hlow⟩ := Numeral.digit?_eq_some_iff.1 hlow
      have hdiv : n.toUInt8.toNat / 16 = high := by omega
      have hmod : n.toUInt8.toNat % 16 = low := by omega
      exact .digits (hdiv.symm ▸ hhigh) (hmod.symm ▸ hlow)
  · rintro ⟨byte, hpair, rfl⟩
    cases hpair with
    | digits hhigh hlow => exact Numeral.read?_pair hhigh hlow
    | signed hsmall hlow =>
      have hdigit := Numeral.digits?_one.2 (hlow.digit?_eq hsmall)
      exact Option.filter_eq_some_iff.2 ⟨hdigit, decide_eq_true byte.toNat_lt⟩

theorem exists_pair_iff {a b : Char} :
    (∃ byte, Pair byte a b) ↔ ((isHexChar a || a == '+') && isHexChar b) = true := by
  rw [Bool.and_eq_true, Bool.or_eq_true, isHexChar_iff, isHexChar_iff, beq_iff_eq]
  constructor
  · rintro ⟨byte, hpair⟩
    have hbyte := byte.toNat_lt
    cases hpair with
    | digits hhigh hlow =>
      exact ⟨.inl ⟨_, by omega, hhigh⟩, _, Nat.mod_lt _ (by decide), hlow⟩
    | signed hsmall hlow => exact ⟨.inr rfl, _, hsmall, hlow⟩
  · rintro ⟨⟨high, hhighlt, hhigh⟩ | rfl, low, hlowlt, hlow⟩
    · have hbyte : (high * 16 + low).toUInt8.toNat = high * 16 + low :=
        UInt8.toNat_ofNat_of_lt' (show high * 16 + low < 256 by omega)
      refine ⟨(high * 16 + low).toUInt8, .digits ?_ ?_⟩
      · rwa [hbyte, show (high * 16 + low) / 16 = high by omega]
      · rwa [hbyte, show (high * 16 + low) % 16 = low by omega]
    · have hbyte : low.toUInt8.toNat = low :=
        UInt8.toNat_ofNat_of_lt' (show low < 256 by omega)
      exact ⟨low.toUInt8, .signed (hbyte.symm ▸ hlowlt) (hbyte.symm ▸ hlow)⟩

/-- A word is read as the bytes of its pairs. -/
theorem pairsFrom?_eq_some_iff {read bytes : List UInt8} {word : List Char} :
    pairsFrom? read word = some bytes ↔
      ∃ later, Pairs later word ∧ read.reverse ++ later = bytes := by
  fun_induction pairsFrom? read word with
  | case1 read =>
    constructor
    · intro h
      exact ⟨[], .nil, by rw [List.append_nil]; exact Option.some.inj h⟩
    · rintro ⟨later, hpairs, rfl⟩
      cases hpairs
      rw [List.append_nil]
  | case2 =>
    constructor
    · intro h
      cases h
    · rintro ⟨later, hpairs, -⟩
      cases hpairs
  | case3 read a b rest n hn ih =>
    obtain ⟨byte, hpair, rfl⟩ := read?_pair_iff.1 hn
    have hbyte : byte.toNat.toUInt8 = byte := UInt8.ofNat_toNat
    rw [ih, hbyte]
    constructor
    · rintro ⟨later, hpairs, rfl⟩
      exact ⟨byte :: later, .cons hpair hpairs, by simp⟩
    · rintro ⟨later, hpairs, rfl⟩
      cases hpairs with
      | cons hfirst hpairs =>
        rename_i first later
        have hsame : first.toNat = byte.toNat := by
          have hread := read?_pair_iff.2 ⟨first, hfirst, rfl⟩
          exact Option.some.inj (hread.symm.trans hn)
        obtain rfl := UInt8.toNat_inj.1 hsame
        exact ⟨later, hpairs, by simp⟩
  | case4 read a b rest hnone =>
    constructor
    · intro h
      cases h
    · rintro ⟨later, hpairs, -⟩
      cases hpairs with
      | cons hfirst hpairs =>
        rw [read?_pair_iff.2 ⟨_, hfirst, rfl⟩] at hnone
        cases hnone

/-! ## Words -/

theorem exists_pairs_iff {word : List Char} :
    (∃ bytes, Pairs bytes word) ↔ isSignedRun word = true := by
  unfold isSignedRun
  fun_induction isRunOf (fun c => isHexChar c || c == '+') word with
  | case1 => exact iff_of_true ⟨[], .nil⟩ rfl
  | case2 =>
    refine iff_of_false ?_ nofun
    rintro ⟨bytes, hpairs⟩
    cases hpairs
  | case3 a b word ih =>
    rw [Bool.and_eq_true, ← exists_pair_iff, ← ih]
    constructor
    · rintro ⟨bytes, hpairs⟩
      cases hpairs with
      | cons hpair hpairs => exact ⟨⟨_, hpair⟩, _, hpairs⟩
    · rintro ⟨⟨byte, hpair⟩, bytes, hpairs⟩
      exact ⟨byte :: bytes, .cons hpair hpairs⟩

theorem wordBytes_eq_ok_iff {word : List Char} {bytes : List UInt8} :
    wordBytes word = .ok bytes ↔ Pairs bytes word := by
  have hpairs : pairsFrom? [] word = some bytes ↔ Pairs bytes word := by
    rw [pairsFrom?_eq_some_iff]
    simp
  rw [← hpairs, wordBytes]
  cases pairsFrom? [] word with
  | none => simp
  | some read =>
    exact ⟨fun h => congrArg some (Except.ok.inj h), fun h => by rw [Option.some.inj h]⟩

/-- A word that is no run of pairs is the fault. -/
theorem wordBytes_eq_error_iff {word : List Char} {reason : Error} :
    wordBytes word = .error reason ↔
      isSignedRun word = false ∧ reason = .badProgramText (String.ofList word) := by
  have hnone : isSignedRun word = false ↔ pairsFrom? [] word = none := by
    rw [← Bool.not_eq_true, ← exists_pairs_iff, Option.eq_none_iff_forall_ne_some]
    simp [pairsFrom?_eq_some_iff]
  rw [hnone, wordBytes]
  cases pairsFrom? [] word with
  | none => simp [eq_comm]
  | some read => simp

/-- In a run of pairs of digits each byte is spelled out. -/
theorem Pairs.map_toUpper {bytes : List UInt8} {word : List Char} (h : Pairs bytes word)
    (hrun : isHexRun word = true) :
    word.map Char.toUpper = bytes.flatMap fun byte => (Numeral.hexUpper 2 byte.toNat).toList := by
  induction h with
  | nil => rfl
  | cons hpair h ih =>
    rename_i byte a b bytes word
    have hbyte := byte.toNat_lt
    obtain ⟨hfirst, hrest⟩ := Bool.and_eq_true_iff.1 hrun
    rw [List.map_cons, List.map_cons, List.flatMap_cons, toList_hexUpper hbyte, ih hrest]
    cases hpair with
    | digits hhigh hlow =>
      rw [hhigh.toUpper_eq (by omega), hlow.toUpper_eq (by omega)]
      rfl
    | signed hsmall hlow => exact absurd hfirst (by simp [isHexChar])

/-- A run of pairs of digits is a word of digits. -/
theorem isHexRun_iff {word : List Char} :
    isHexRun word = true ↔ isSignedRun word = true ∧ ∀ c ∈ word, isHexChar c = true := by
  unfold isHexRun isSignedRun
  fun_induction isRunOf isHexChar word with
  | case1 => simp [isRunOf]
  | case2 => simp [isRunOf]
  | case3 a b word ih =>
    simp only [isRunOf, Bool.and_eq_true, ih, List.forall_mem_cons]
    grind

/-! ## Texts -/

/-- What is left of a text without its white space is its words. -/
theorem flatten_wordsOf (text : List Char) :
    (wordsOf text).flatten = text.filter (!isBlank ·) := by
  rw [wordsOf, List.flatten_filter_not_isEmpty]
  induction text with
  | nil => rfl
  | cons c text ih =>
    rw [List.splitOnP_cons_eq_if_modifyHead]
    obtain ⟨first, later, hsplit⟩ := List.exists_cons_of_ne_nil (List.splitOnP_ne_nil isBlank text)
    rw [hsplit] at ih ⊢
    cases hc : isBlank c with
    | true => simpa [hc] using ih
    | false => simpa [hc] using ih

theorem mapM_wordBytes_eq_ok_iff {ws : List (List Char)} {lists : List (List UInt8)} :
    ws.mapM wordBytes = .ok lists ↔ List.Forall₂ Pairs lists ws := by
  induction ws generalizing lists with
  | nil =>
    rw [List.mapM_nil, List.forall₂_nil_right_iff]
    exact ⟨fun h => (Except.ok.inj h).symm, fun h => congrArg Except.ok h.symm⟩
  | cons word ws ih =>
    rw [List.mapM_cons, List.forall₂_cons_right_iff]
    simp only [← wordBytes_eq_ok_iff, ← ih]
    cases wordBytes word with
    | error reason => simp [bind, Except.bind]
    | ok bytes =>
      cases ws.mapM wordBytes with
      | error reason => simp [bind, Except.bind]
      | ok later => simp [bind, Except.bind, pure, Except.pure, eq_comm]

/-- The first word that is no run of pairs is the fault of the text. -/
theorem mapM_wordBytes_eq_error_iff {ws : List (List Char)} {reason : Error} :
    ws.mapM wordBytes = .error reason ↔
      ∃ word, ws.find? (!isSignedRun ·) = some word ∧
        reason = .badProgramText (String.ofList word) := by
  induction ws with
  | nil => exact ⟨nofun, nofun⟩
  | cons word ws ih =>
    rw [List.mapM_cons]
    cases hword : wordBytes word with
    | error other =>
      obtain ⟨hbad, rfl⟩ := wordBytes_eq_error_iff.1 hword
      rw [List.find?_cons_of_pos (by simpa using hbad)]
      simp [bind, Except.bind, eq_comm]
    | ok bytes =>
      have hgood : isSignedRun word = true :=
        exists_pairs_iff.1 ⟨bytes, wordBytes_eq_ok_iff.1 hword⟩
      rw [List.find?_cons_of_neg (by simpa using hgood), ← ih]
      cases ws.mapM wordBytes with
      | error other => simp [bind, Except.bind]
      | ok later => simp [bind, Except.bind, pure, Except.pure]

theorem parse_eq_ok_iff {text : String} {bytes : List UInt8} :
    parse text = .ok bytes ↔
      ∃ lists, List.Forall₂ Pairs lists (wordsOf text.toList) ∧ lists.flatten = bytes := by
  simp only [← mapM_wordBytes_eq_ok_iff, parse]
  cases (wordsOf text.toList).mapM wordBytes with
  | error reason => simp [bind, Except.bind]
  | ok lists => simp [bind, Except.bind, pure, Except.pure]

theorem parse_eq_error_iff {text : String} {reason : Error} :
    parse text = .error reason ↔
      ∃ word, (wordsOf text.toList).find? (!isSignedRun ·) = some word ∧
        reason = .badProgramText (String.ofList word) := by
  rw [← mapM_wordBytes_eq_error_iff, parse]
  cases (wordsOf text.toList).mapM wordBytes with
  | error other => simp [bind, Except.bind]
  | ok lists => simp [bind, Except.bind, pure, Except.pure]

/-- What it is to read pairs of digits alone: a text that is accepted has nothing in it but white
space and digits, which spell the bytes, and the fault of any other text is the first word that is
no run of pairs of digits. -/
structure ReadsAsPairs (text : String) : Prop where
  accepted : ∀ bytes, parse text = .ok bytes →
    (∀ c ∈ text.toList, isBlank c = true ∨ isHexChar c = true) ∧
      (text.toList.filter (!isBlank ·)).map Char.toUpper =
        bytes.flatMap fun byte => (Numeral.hexUpper 2 byte.toNat).toList
  refused : ∀ reason, parse text = .error reason →
    ∃ word, (wordsOf text.toList).find? (!isHexRun ·) = some word ∧
      reason = .badProgramText (String.ofList word)

/-- Words that are runs of pairs of digits spell their bytes one after the other. -/
theorem map_toUpper_flatten {lists : List (List UInt8)} {ws : List (List Char)}
    (h : List.Forall₂ Pairs lists ws) (hruns : ∀ word ∈ ws, isHexRun word = true) :
    ws.flatten.map Char.toUpper =
      lists.flatten.flatMap fun byte => (Numeral.hexUpper 2 byte.toNat).toList := by
  induction h with
  | nil => rfl
  | cons hpairs h ih =>
    rw [List.flatten_cons, List.flatten_cons, List.map_append, List.flatMap_append,
      hpairs.map_toUpper (hruns _ List.mem_cons_self),
      ih fun word hword => hruns word (List.mem_cons_of_mem _ hword)]

/-- A character that is no white space stands in a word. -/
theorem exists_word_iff {text : List Char} {c : Char} :
    (∃ word ∈ wordsOf text, c ∈ word) ↔ c ∈ text ∧ isBlank c = false := by
  rw [← List.mem_flatten, flatten_wordsOf, List.mem_filter, Bool.not_eq_true']

theorem find?_of_parse {text : String} {bytes : List UInt8} (h : parse text = .ok bytes) :
    (wordsOf text.toList).find? (!isSignedRun ·) = none := by
  cases hfind : (wordsOf text.toList).find? (!isSignedRun ·) with
  | none => rfl
  | some word =>
    rw [parse_eq_error_iff.2 ⟨word, hfind, rfl⟩] at h
    cases h

theorem forall_run_iff {run : List Char → Bool} {ws : List (List Char)} :
    ws.find? (!run ·) = none ↔ ∀ word ∈ ws, run word = true := by
  simp [List.find?_eq_none]

/-- A text is read as pairs of digits exactly if its first word that is no run of them is no run
with plus signs either. -/
theorem readsAsPairs_iff {text : String} :
    ReadsAsPairs text ↔
      (wordsOf text.toList).find? (!isHexRun ·) = (wordsOf text.toList).find? (!isSignedRun ·) := by
  constructor
  · intro h
    cases hparse : parse text with
    | error reason =>
      obtain ⟨word, hsigned, rfl⟩ := parse_eq_error_iff.1 hparse
      obtain ⟨word', hhex, hsame⟩ := h.refused _ hparse
      obtain rfl := String.ofList_inj.1 (Error.badProgramText.inj hsame)
      rw [hsigned, hhex]
    | ok bytes =>
      have hsigned := find?_of_parse hparse
      rw [hsigned, forall_run_iff]
      intro word hword
      refine isHexRun_iff.2 ⟨forall_run_iff.1 hsigned word hword, fun c hc => ?_⟩
      obtain ⟨hmem, hblank⟩ := exists_word_iff.1 ⟨word, hword, hc⟩
      refine ((h.accepted bytes hparse).1 c hmem).resolve_left ?_
      rw [hblank]
      nofun
  · intro h
    refine ⟨fun bytes hparse => ?_, fun reason hparse => ?_⟩
    · have hruns : ∀ word ∈ wordsOf text.toList, isHexRun word = true := by
        rw [← forall_run_iff, h]
        exact find?_of_parse hparse
      obtain ⟨lists, hlists, rfl⟩ := parse_eq_ok_iff.1 hparse
      refine ⟨fun c hc => ?_, ?_⟩
      · cases hblank : isBlank c with
        | true => exact .inl rfl
        | false =>
          obtain ⟨word, hword, hmem⟩ := exists_word_iff.2 ⟨hc, hblank⟩
          exact .inr ((isHexRun_iff.1 (hruns word hword)).2 c hmem)
      · rw [← flatten_wordsOf]
        exact map_toUpper_flatten hlists hruns
    · rw [h]
      exact parse_eq_error_iff.1 hparse

/-- Without a plus sign there is no difference between the two kinds of runs. -/
theorem isSignedRun_eq {word : List Char} (h : '+' ∉ word) : isSignedRun word = isHexRun word := by
  unfold isSignedRun isHexRun
  fun_induction isRunOf isHexChar word with
  | case1 => rfl
  | case2 => rfl
  | case3 a b word ih =>
    have ha : (a == '+') = false := by grind
    rw [isRunOf, ih (by grind), ha, Bool.or_false]

/-- **What is read as a program.** A text is accepted exactly if its words are runs of pairs, a plus
sign standing for the first digit of any pair, and is read as their bytes; otherwise its first word
that is no such run is the fault. So it is read as pairs of digits and nothing else unless a word
with a plus sign is accepted where the first fault should be, and always if there is no plus sign. -/
theorem accepted_texts (text : String) :
    (∀ bytes, parse text = .ok bytes ↔
      ∃ lists, List.Forall₂ Pairs lists (wordsOf text.toList) ∧ lists.flatten = bytes) ∧
    (∀ reason, parse text = .error reason ↔
      ∃ word, (wordsOf text.toList).find? (!isSignedRun ·) = some word ∧
        reason = .badProgramText (String.ofList word)) ∧
    (ReadsAsPairs text ↔
      (wordsOf text.toList).find? (!isHexRun ·) =
        (wordsOf text.toList).find? (!isSignedRun ·)) ∧
    ('+' ∉ text.toList → ReadsAsPairs text) := by
  refine ⟨fun bytes => parse_eq_ok_iff, fun reason => parse_eq_error_iff, readsAsPairs_iff,
    fun hplus => readsAsPairs_iff.2 ?_⟩
  have hwords : ∀ word ∈ wordsOf text.toList, '+' ∉ word := fun word hword hmem =>
    hplus (exists_word_iff.1 ⟨word, hword, hmem⟩).1
  exact List.find?_congr fun word hword => by rw [isSignedRun_eq (hwords word hword)]

/-- A plus sign and a digit are read as a byte, where a pair of digits is asked for. -/
theorem plus_sign_accepted : parse "+A" = .ok [0x0A] ∧ ¬ ReadsAsPairs "+A" := by
  refine ⟨by decide +kernel, fun h => ?_⟩
  have hplus := (h.accepted [0x0A] (by decide +kernel)).1 '+' (by decide)
  exact absurd hplus (by decide)

end ProgramText

end Timeshare

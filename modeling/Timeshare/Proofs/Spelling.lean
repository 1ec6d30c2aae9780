import Timeshare.Command
import Timeshare.ProgramText

/-!
# Spelling

What is written out and read back. The words of a text stay the same when it is written anew with
one blank between each two of them, so everything that reads a text word by word, a program for one,
reads the same. A number that is written in digits is read as that number.
-/
namespace Timeshare

/-- What holds of the first 128 characters, one by one, holds of each of them. -/
theorem of_ascii {P : Char → Prop} (h : ∀ n : Fin 128, P (Char.ofNat n)) {c : Char}
    (hc : c.toNat < 128) : P c := by
  have hown := h ⟨c.toNat, hc⟩
  rwa [Char.ofNat_toNat] at hown

/-! ## Words -/

/-- At least one character and no white space. -/
structure IsWord (word : List Char) : Prop where
  ne_nil : word ≠ []
  noBlank : ∀ c ∈ word, isBlank c = false

theorem isWord_of_all {word : List Char} (hne : word ≠ []) (h : word.all (!isBlank ·) = true) :
    IsWord word := by
  refine ⟨hne, fun c hc => ?_⟩
  simpa using List.all_eq_true.1 h c hc

theorem not_of_mem_splitOnP {α : Type} {p : α → Bool} {xs run : List α} (h : run ∈ xs.splitOnP p) :
    ∀ x ∈ run, p x = false := by
  induction xs generalizing run with
  | nil =>
    rw [List.splitOnP_nil, List.mem_singleton] at h
    subst h
    intro x hx
    cases hx
  | cons x xs ih =>
    rw [List.splitOnP_cons_eq_if_modifyHead] at h
    split at h
    · rcases List.mem_cons.1 h with rfl | h
      · intro x hx
        cases hx
      · exact ih h
    · rename_i hx
      obtain ⟨first, later, hsplit⟩ := List.exists_cons_of_ne_nil (List.splitOnP_ne_nil p xs)
      rw [hsplit, List.modifyHead_cons, List.mem_cons] at h
      rcases h with rfl | h
      · intro y hy
        rcases List.mem_cons.1 hy with rfl | hy
        · exact Bool.eq_false_iff.2 hx
        · exact ih (hsplit ▸ List.mem_cons_self) y hy
      · exact ih (hsplit ▸ List.mem_cons_of_mem _ h)

theorem isWord_of_mem_wordsOf {text word : List Char} (h : word ∈ wordsOf text) : IsWord word := by
  obtain ⟨hrun, hne⟩ := List.mem_filter.1 h
  constructor
  · rintro rfl
    cases hne
  · exact not_of_mem_splitOnP hrun

theorem wordsOf_of_isWord {word : List Char} (h : IsWord word) : wordsOf word = [word] := by
  have hne : (!word.isEmpty) = true := by simpa using h.ne_nil
  rw [wordsOf, List.splitOnP_eq_singleton h.noBlank]
  exact List.filter_cons_of_pos hne

/-- White space separates words, whatever stands on either side. -/
theorem wordsOf_append_cons (before after : List Char) {c : Char} (hc : isBlank c = true) :
    wordsOf (before ++ c :: after) = wordsOf before ++ wordsOf after := by
  rw [wordsOf, List.splitOnP_append_cons before after hc, List.filter_append]
  rfl

/-- A text that is put together with blanks has the words of its parts. -/
theorem wordsOf_intercalate (parts : List (List Char)) :
    wordsOf ([' '].intercalate parts) = parts.flatMap wordsOf := by
  induction parts with
  | nil => rfl
  | cons part parts ih =>
    cases parts with
    | nil => rw [List.intercalate_singleton, List.flatMap_singleton]
    | cons next parts =>
      rw [List.intercalate_cons_cons, List.append_assoc, List.singleton_append,
        wordsOf_append_cons part _ rfl, ih]
      rfl

/-- Words are read back one by one. -/
theorem flatMap_wordsOf {ws : List (List Char)} (h : ∀ word ∈ ws, IsWord word) :
    ws.flatMap wordsOf = ws := by
  induction ws with
  | nil => rfl
  | cons word ws ih =>
    rw [List.flatMap_cons, wordsOf_of_isWord (h word List.mem_cons_self),
      ih fun w hw => h w (List.mem_cons_of_mem _ hw)]
    rfl

theorem words_of_isWord {word : String} (h : IsWord word.toList) : words word = [word] := by
  rw [words, wordsOf_of_isWord h, List.map_singleton, String.ofList_toList]

theorem isWord_of_mem_words {text word : String} (h : word ∈ words text) : IsWord word.toList := by
  obtain ⟨chars, hchars, rfl⟩ := List.mem_map.1 h
  rw [String.toList_ofList]
  exact isWord_of_mem_wordsOf hchars

/-- A line that is put together from texts has the words of the texts. -/
theorem words_joined_texts (texts : List String) :
    words (Command.joined texts) = texts.flatMap words := by
  have hline : (Command.joined texts).toList = [' '].intercalate (texts.map String.toList) := by
    rw [Command.joined, String.toList_intercalate]
    rfl
  rw [words, hline, wordsOf_intercalate, List.flatMap_map, List.map_flatMap]
  rfl

/-- A text whose words stand on one line has the words that it had. -/
theorem wordsOf_joined (text : String) :
    wordsOf (Command.joined (words text)).toList = wordsOf text.toList := by
  have hback : (words text).map String.toList = wordsOf text.toList := by
    rw [words, List.map_map]
    exact List.map_id'' (fun _ => String.toList_ofList) _
  have hline : (Command.joined (words text)).toList = [' '].intercalate (wordsOf text.toList) := by
    rw [Command.joined, String.toList_intercalate, hback]
    rfl
  rw [hline, wordsOf_intercalate]
  exact flatMap_wordsOf fun _ => isWord_of_mem_wordsOf

theorem words_joined (text : String) : words (Command.joined (words text)) = words text := by
  rw [words, wordsOf_joined]
  rfl

/-- The name of a command and what follows it. -/
theorem words_named {name : String} (h : IsWord name.toList) (rest : String) :
    words (name ++ " " ++ rest) = name :: words rest := by
  have hchars : (name ++ " " ++ rest).toList = name.toList ++ ' ' :: rest.toList := by
    rw [String.toList_append, String.toList_append, List.append_assoc]
    rfl
  rw [words, hchars, wordsOf_append_cons _ _ rfl, wordsOf_of_isWord h, List.singleton_append,
    List.map_cons, String.ofList_toList]
  rfl

/-- A line that begins with a name in lower case is read as the command with this name. -/
theorem Command.parse_named {name : String} (h : IsWord name.toList) (hlower : lowerCase name = name)
    (rest : String) : parse (name ++ " " ++ rest) = ofWords name (words rest) := by
  rw [parse, words_named h]
  simp only [hlower]

theorem Command.parse_load (text : String) :
    parse ("load " ++ text) = load (joined (words text)) := by
  have hname : IsWord "load".toList := isWord_of_all (by decide) (by decide)
  have hlower : lowerCase "load" = "load" := by decide +kernel
  exact parse_named hname hlower text

/-- **Programs are read word by word.** However the words of a program are spaced, and on however
many lines, it has the same bytes or the same fault. -/
theorem ProgramText.parse_joined (text : String) :
    parse (Command.joined (words text)) = parse text := by
  rw [parse, parse, wordsOf_joined]

example : Command.joined (words " EA\n\ta907 ") = "EA a907" := by decide +kernel

/-! ## Numerals -/

namespace Numeral

theorem digitValue?_digitChar {d : Nat} (h : d < 16) : digitValue? d.digitChar = some d := by
  have hall : ∀ d : Fin 16, digitValue? d.1.digitChar = some d.1 := by decide
  exact hall ⟨d, h⟩

theorem ascii_of_digitValue? {c : Char} {d : Nat} (h : digitValue? c = some d) :
    c.toNat < 128 := by
  have hbound : ∀ {low high : Char}, low ≤ c ∧ c ≤ high → c.toNat ≤ high.toNat := fun hc =>
    UInt32.le_iff_toNat_le.1 hc.2
  unfold digitValue? at h
  split at h
  · rename_i hc
    have hlast : c.toNat ≤ 57 := hbound hc
    omega
  · split at h
    · rename_i hc
      have hlast : c.toNat ≤ 102 := hbound hc
      omega
    · split at h
      · rename_i hc
        have hlast : c.toNat ≤ 70 := hbound hc
        omega
      · cases h

theorem isBlank_of_digitValue? {c : Char} {d : Nat} (h : digitValue? c = some d) :
    isBlank c = false :=
  of_ascii (P := fun c => (digitValue? c).isSome = true → isBlank c = false) (by decide)
    (ascii_of_digitValue? h) (Option.isSome_of_eq_some h)

theorem digitsFrom?_append (radix value : Nat) (xs ys : List Char) :
    digitsFrom? radix value (xs ++ ys) =
      (digitsFrom? radix value xs).bind (digitsFrom? radix · ys) := List.foldlM_append

section

variable {radix : Nat}

theorem digitsFrom?_digitChar (hr : radix ≤ 16) {d : Nat} (hd : d < radix) (value : Nat) :
    digitsFrom? radix value [d.digitChar] = some (value * radix + d) := by
  have hdigit : digit? radix d.digitChar = some d := by
    rw [digit?, digitValue?_digitChar (Nat.lt_of_lt_of_le hd hr)]
    exact Option.filter_eq_some_iff.2 ⟨rfl, decide_eq_true hd⟩
  rw [digitsFrom?, List.foldlM_cons, hdigit]
  rfl

/-- The digits of a number are worth the number. -/
theorem digitsFrom?_toDigits (hl : 1 < radix) (hr : radix ≤ 16) (n : Nat) :
    digitsFrom? radix 0 (Nat.toDigits radix n) = some n := by
  induction n using Nat.strongRecOn with
  | ind n ih =>
    by_cases hsmall : n < radix
    · rw [Nat.toDigits_of_lt_base hsmall, digitsFrom?_digitChar hr hsmall, Nat.zero_mul,
        Nat.zero_add]
    · have hlast : n % radix < radix := Nat.mod_lt n (by omega)
      have hfront : 0 < n / radix := Nat.div_pos (by omega) (by omega)
      have hsplit : radix.toDigits (n / radix) ++ radix.toDigits (n % radix) =
          radix.toDigits n := by
        rw [Nat.toDigits_append_toDigits hl hfront hlast, Nat.div_add_mod]
      rw [← hsplit, digitsFrom?_append, ih (n / radix) (Nat.div_lt_self (by omega) hl),
        Nat.toDigits_of_lt_base hlast, Option.bind_some, digitsFrom?_digitChar hr hlast,
        Nat.div_add_mod']

/-- What is read as digits is digits. -/
theorem noBlank_of_digitsFrom? {value n : Nat} {digits : List Char}
    (h : digitsFrom? radix value digits = some n) : ∀ c ∈ digits, isBlank c = false := by
  induction digits generalizing value with
  | nil => exact nofun
  | cons c digits ih =>
    rw [digitsFrom?, List.foldlM_cons] at h
    obtain ⟨next, hnext, hrest⟩ := Option.bind_eq_some_iff.1 h
    obtain ⟨d, hd, -⟩ := Option.map_eq_some_iff.1 hnext
    intro c' hc'
    rcases List.mem_cons.1 hc' with rfl | hc'
    · exact isBlank_of_digitValue? (Option.filter_eq_some_iff.1 hd).1
    · exact ih hrest c' hc'

theorem isWord_toDigits (hl : 1 < radix) (hr : radix ≤ 16) (n : Nat) :
    IsWord (Nat.toDigits radix n) :=
  ⟨Nat.toDigits_ne_nil, noBlank_of_digitsFrom? (digitsFrom?_toDigits hl hr n)⟩

/-- **A number is read as it was written**, where it is below the bound of its field. -/
theorem read?_toDigits (hl : 1 < radix) (hr : radix ≤ 16) {n bound : Nat} (hn : n < bound) :
    read? radix bound (Nat.toDigits radix n) = some n := by
  have hworth := digitsFrom?_toDigits hl hr n
  have hdigits : digits? radix (Nat.toDigits radix n) = some n := by
    rw [digits?, if_neg (by simp)]
    exact hworth
  unfold read?
  simp only
  split
  · -- a plus sign is no digit
    rename_i digits hplus
    rw [hplus] at hworth
    cases hworth
  · rw [hdigits]
    exact Option.filter_eq_some_iff.2 ⟨rfl, decide_eq_true hn⟩

end

theorem isWord_toString (n : Nat) : IsWord (toString n).toList := by
  rw [Nat.toString_eq_ofList_toDigits, String.toList_ofList]
  exact isWord_toDigits (by decide) (by decide) n

theorem number?_toString {n bound : Nat} (hn : n < bound) :
    Command.number? bound (toString n) = some n := by
  rw [Command.number?, Nat.toString_eq_ofList_toDigits, String.toList_ofList]
  exact read?_toDigits (by decide) (by decide) hn

end Numeral

end Timeshare

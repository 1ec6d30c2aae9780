import Timeshare.Proofs.Spelling
import Timeshare.Shell

/-!
# Programs in hexadecimal

`ProgramText.Spells` says which texts spell a program: pairs of digits, in either letter case, with
white space between any two pairs, in front of the first and behind the last, or not. Every such
text is read as the program, and `hexBytes` writes one of them. So whatever the shell shows of
memory and of the disk can be typed again.
-/
namespace Timeshare

/-- The character is the digit of a number below sixteen, as a letter in either case. -/
def IsHexDigit (value : Nat) (c : Char) : Prop :=
  c = value.digitChar ∨ c = value.digitChar.toUpper

namespace ProgramText

/-- The text is the bytes, each as a pair of digits, and white space between pairs. -/
inductive Spells : List UInt8 → List Char → Prop
  | nil : Spells [] []
  | blank {c : Char} {bytes : List UInt8} {text : List Char} (hc : isBlank c = true)
      (h : Spells bytes text) : Spells bytes (c :: text)
  | pair {byte : UInt8} {high low : Char} {bytes : List UInt8} {text : List Char}
      (hhigh : IsHexDigit (byte.toNat / 16) high) (hlow : IsHexDigit (byte.toNat % 16) low)
      (h : Spells bytes text) : Spells (byte :: bytes) (high :: low :: text)

end ProgramText

/-! ## Digits and pairs -/

namespace IsHexDigit

variable {value : Nat} {c : Char}

theorem digit?_eq (h : IsHexDigit value c) (hv : value < 16) :
    Numeral.digit? 16 c = some value := by
  have hall : ∀ d : Fin 16, Numeral.digit? 16 d.1.digitChar = some d.1 ∧
      Numeral.digit? 16 d.1.digitChar.toUpper = some d.1 := by decide
  rcases h with rfl | rfl
  · exact (hall ⟨value, hv⟩).1
  · exact (hall ⟨value, hv⟩).2

theorem isBlank_eq (h : IsHexDigit value c) (hv : value < 16) : isBlank c = false := by
  have hall : ∀ d : Fin 16, isBlank d.1.digitChar = false ∧
      isBlank d.1.digitChar.toUpper = false := by decide
  rcases h with rfl | rfl
  · exact (hall ⟨value, hv⟩).1
  · exact (hall ⟨value, hv⟩).2

end IsHexDigit

/-- A pair of digits is worth a byte. -/
theorem Numeral.read?_pair {byte : UInt8} {high low : Char}
    (hhigh : IsHexDigit (byte.toNat / 16) high) (hlow : IsHexDigit (byte.toNat % 16) low) :
    read? 16 256 [high, low] = some byte.toNat := by
  have hbyte : byte.toNat < 256 := byte.toNat_lt
  have hfirst := hhigh.digit?_eq (by omega)
  have hsecond := hlow.digit?_eq (by omega)
  have hworth : digitsFrom? 16 0 [high, low] = some byte.toNat := by
    have hsplit : (0 * 16 + byte.toNat / 16) * 16 + byte.toNat % 16 = byte.toNat := by omega
    simp only [digitsFrom?, List.foldlM_cons, List.foldlM_nil, hfirst, hsecond, Option.map_some,
      Option.bind_eq_bind, Option.bind_some, hsplit]
    rfl
  unfold read?
  simp only
  split
  · -- a plus sign is no digit
    rename_i digits hplus
    rw [(List.cons.inj hplus).1] at hfirst
    cases hfirst
  · rw [digits?, if_neg (by simp), hworth]
    exact Option.filter_eq_some_iff.2 ⟨rfl, decide_eq_true hbyte⟩

namespace ProgramText

/-! ## Words of pairs -/

/-- What was read of a word does not depend on how it goes on. -/
theorem pairsFrom?_append {read bytes : List UInt8} {run : List Char}
    (h : pairsFrom? read run = some bytes) (more : List Char) :
    pairsFrom? read (run ++ more) = pairsFrom? bytes.reverse more := by
  fun_induction pairsFrom? read run with
  | case1 read =>
    obtain rfl := Option.some.inj h
    rw [List.nil_append, List.reverse_reverse]
  | case2 => cases h
  | case3 read a b rest n hn ih =>
    rw [List.cons_append, List.cons_append, pairsFrom?, hn]
    exact ih h
  | case4 => cases h

/-- The characters are the bytes with no white space between the pairs. -/
structure Run (bytes : List UInt8) (run : List Char) : Prop where
  noBlank : ∀ c ∈ run, isBlank c = false
  pairsFrom?_eq : pairsFrom? [] run = some bytes

theorem Run.nil : Run [] [] := ⟨nofun, rfl⟩

theorem Run.pair {bytes : List UInt8} {run : List Char} (h : Run bytes run) {byte : UInt8}
    {high low : Char} (hhigh : IsHexDigit (byte.toNat / 16) high)
    (hlow : IsHexDigit (byte.toNat % 16) low) : Run (bytes ++ [byte]) (run ++ [high, low]) := by
  have hbyte : byte.toNat < 256 := byte.toNat_lt
  constructor
  · intro c hc
    rw [List.mem_append, List.mem_cons, List.mem_singleton] at hc
    rcases hc with hc | rfl | rfl
    · exact h.noBlank c hc
    · exact hhigh.isBlank_eq (by omega)
    · exact hlow.isBlank_eq (by omega)
  · rw [pairsFrom?_append h.pairsFrom?_eq, pairsFrom?, Numeral.read?_pair hhigh hlow]
    simp [pairsFrom?]

/-- The bytes of a text, word by word. -/
def wordsBytes (text : List Char) : Except Error (List (List UInt8)) :=
  (wordsOf text).mapM wordBytes

/-- A run is one word, or none. -/
theorem Run.wordsBytes_eq {bytes : List UInt8} {run : List Char} (h : Run bytes run) :
    ∃ lists, wordsBytes run = .ok lists ∧ lists.flatten = bytes := by
  by_cases hne : run = []
  · subst hne
    exact ⟨[], rfl, Option.some.inj h.pairsFrom?_eq⟩
  · refine ⟨[bytes], ?_, by simp⟩
    have hword : wordBytes run = .ok bytes := by rw [wordBytes, h.pairsFrom?_eq]
    rw [wordsBytes, wordsOf_of_isWord ⟨hne, h.noBlank⟩, List.mapM_cons, List.mapM_nil, hword]
    rfl

/-- Behind a run, pairs go on with the word and white space ends it. -/
theorem Run.wordsBytes_append {bytes : List UInt8} {text : List Char} (h : Spells bytes text)
    {before : List UInt8} {run : List Char} (hrun : Run before run) :
    ∃ lists, wordsBytes (run ++ text) = .ok lists ∧ lists.flatten = before ++ bytes := by
  induction h generalizing before run with
  | nil =>
    rw [List.append_nil, List.append_nil]
    exact hrun.wordsBytes_eq
  | blank hc _ ih =>
    obtain ⟨lists, hlists, rfl⟩ := hrun.wordsBytes_eq
    obtain ⟨later, hlater, hflat⟩ := ih Run.nil
    rw [wordsBytes] at hlists hlater
    refine ⟨lists ++ later, ?_, ?_⟩
    · rw [wordsBytes, wordsOf_append_cons _ _ hc, List.mapM_append, hlists]
      rw [List.nil_append] at hlater
      rw [hlater]
      rfl
    · rw [List.flatten_append, hflat, List.nil_append]
  | pair hhigh hlow _ ih =>
    obtain ⟨lists, hlists, hflat⟩ := ih (hrun.pair hhigh hlow)
    simp only [List.append_assoc, List.cons_append, List.nil_append] at hlists hflat
    exact ⟨lists, hlists, hflat⟩

/-- A text that spells a program is read as that program. -/
theorem parse_of_spells {bytes : List UInt8} {text : String} (h : Spells bytes text.toList) :
    parse text = .ok bytes := by
  obtain ⟨lists, hlists, rfl⟩ := Run.wordsBytes_append h Run.nil
  rw [List.nil_append, wordsBytes] at hlists
  rw [parse, hlists]
  rfl

/-! ## What is shown -/

/-- A byte is shown as its two digits. -/
theorem toList_hexUpper {n : Nat} (h : n < 256) :
    (Numeral.hexUpper 2 n).toList = [(n / 16).digitChar.toUpper, (n % 16).digitChar.toUpper] := by
  rw [Numeral.hexUpper, String.toList_ofList]
  by_cases hsmall : n < 16
  · rw [Nat.toDigits_of_lt_base hsmall, Nat.div_eq_of_lt hsmall, Nat.mod_eq_of_lt hsmall]
    rfl
  · have hsplit : Nat.toDigits 16 (n / 16) ++ Nat.toDigits 16 (n % 16) = Nat.toDigits 16 n := by
      rw [Nat.toDigits_append_toDigits (by decide) (by omega) (by omega), Nat.div_add_mod]
    rw [← hsplit, Nat.toDigits_of_lt_base (by omega), Nat.toDigits_of_lt_base (by omega)]
    rfl

theorem spells_hexUpper {byte : UInt8} {bytes : List UInt8} {text : List Char}
    (h : Spells bytes text) :
    Spells (byte :: bytes) ((Numeral.hexUpper 2 byte.toNat).toList ++ text) := by
  rw [toList_hexUpper byte.toNat_lt]
  exact .pair (.inr rfl) (.inr rfl) h

/-- Bytes are shown in one of their spellings. -/
theorem spells_hexBytes (bytes : List UInt8) : Spells bytes (Numeral.hexBytes bytes).toList := by
  rw [Numeral.hexBytes, String.toList_intercalate, List.map_map]
  induction bytes with
  | nil => exact .nil
  | cons byte bytes ih =>
    cases bytes with
    | nil =>
      have hlast : Spells [byte] ((Numeral.hexUpper 2 byte.toNat).toList ++ []) :=
        spells_hexUpper Spells.nil
      rw [List.append_nil] at hlast
      simpa [List.intercalate_singleton] using hlast
    | cons next bytes =>
      rw [List.map_cons, List.map_cons, List.intercalate_cons_cons, List.append_assoc]
      exact spells_hexUpper (.blank rfl ih)

end ProgramText

/-! ## Lines of the shell -/

namespace Command

theorem byte?_toString (n : UInt8) : byte? (toString n.toNat) = some n := by
  rw [byte?, Numeral.number?_toString n.toNat_lt, Option.map_some]
  exact congrArg some UInt8.ofNat_toNat

/-- The line that writes a block. -/
def diskWriteLine (key : BlockKey) (text : String) : String :=
  "disk" ++ " " ++ ("write" ++ " " ++ (toString key.track.toNat ++ " " ++
    (toString key.sector.toNat ++ " " ++ (toString key.block.toNat ++ " " ++ text))))

theorem parse_diskWriteLine (key : BlockKey) (text : String) :
    parse (diskWriteLine key text) = diskWrite key (joined (words text)) := by
  have hnumber : ∀ (n : UInt8) (rest : String),
      words (toString n.toNat ++ " " ++ rest) = toString n.toNat :: words rest := fun n =>
    words_named (Numeral.isWord_toString n.toNat)
  have hname : IsWord "disk".toList := isWord_of_all (by decide) (by decide)
  have hlower : lowerCase "disk" = "disk" := by decide +kernel
  have hwrite : IsWord "write".toList := isWord_of_all (by decide) (by decide)
  have hkey : blockKey? (toString key.track.toNat) (toString key.sector.toNat)
      (toString key.block.toNat) = some key := by
    simp only [blockKey?, byte?_toString]
    rfl
  rw [diskWriteLine, parse_named hname hlower, words_named hwrite, hnumber, hnumber, hnumber]
  show orUsage _ (parseDisk ("write" :: _ :: _ :: _ :: words text)) = _
  rw [parseDisk, hkey]
  rfl

end Command

namespace ProgramText

/-- **Every spelling of a program loads as that program.** However the pairs of digits are cased and
spaced, the bytes are read, and a `load` or a `disk write` of the text asks the machine for just
these bytes. Bytes are shown in a spelling of theirs, of memory and of the disk, so what is shown
can be typed again. -/
theorem spellings_load (bytes : List UInt8) :
    (∀ text : String, Spells bytes text.toList →
      parse text = .ok bytes ∧
      ∀ {σ : Type} (c : Console σ) (s : Session σ),
        (Command.parse ("load " ++ text)).execute c s =
          Command.attempt c s "load failed: " (.load bytes) ∧
        ∀ key, (Command.parse (Command.diskWriteLine key text)).execute c s =
          ({}, s.act c (.interrupt (.disk (.write key bytes))))) ∧
    Spells bytes (Numeral.hexBytes bytes).toList ∧ parse (Numeral.hexBytes bytes) = .ok bytes ∧
    ∀ m : Machine,
      (∀ address length, address + length < addressSpace →
        m.memory.readBlock address (address + length) = .ok bytes →
        m.memoryText address length =
          s!"{Numeral.hexUpper 4 address}: {Numeral.hexBytes bytes}\n") ∧
      ∀ key block, m.storage.disk.read key = .ok block → block.toBytes = bytes →
        m.blockText key = s!"{key.text}: {Numeral.hexBytes bytes}\n" := by
  refine ⟨fun text h => ?_, spells_hexBytes bytes, parse_of_spells (spells_hexBytes bytes),
    fun m => ⟨fun address length hfits hread => ?_, fun key block hread hbytes => ?_⟩⟩
  · have hread : parse text = .ok bytes := parse_of_spells h
    refine ⟨hread, fun c s => ⟨?_, fun key => ?_⟩⟩
    · rw [Command.parse_load]
      simp only [Command.execute, parse_joined, hread]
    · rw [Command.parse_diskWriteLine]
      simp only [Command.execute, parse_joined, hread]
  · simp only [Machine.memoryText, if_pos hfits, hread]
  · subst hbytes
    simp only [Machine.blockText, hread]

/-- Three bytes in two words, with white space of all kinds around them. -/
theorem spellings_load_small :
    Spells [0xA9, 0x01, 0x8D] " A901\u2003\n8d\t".toList ∧
      parse " A901\u2003\n8d\t" = .ok [0xA9, 0x01, 0x8D] := by
  have hspells : Spells [0xA9, 0x01, 0x8D] " A901\u2003\n8d\t".toList :=
    .blank rfl (.pair (.inr rfl) (.inl rfl) (.pair (.inl rfl) (.inl rfl)
      (.blank rfl (.blank rfl (.pair (.inr rfl) (.inl rfl) (.blank rfl .nil))))))
  exact ⟨hspells, ((spellings_load _).1 _ hspells).1⟩

end ProgramText

end Timeshare

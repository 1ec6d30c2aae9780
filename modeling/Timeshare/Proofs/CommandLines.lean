import Timeshare.Proofs.Hexadecimal

/-!
# Commands and their lines

`Command.line` writes a command as a line, and the line is read as the command. `Command.Sayable`
says which commands a line can ask for at all: those whose numbers fit their fields and whose texts
are words with one blank between each two. `Respelled` says what of a line does not matter: which
white space stands between its words and around them, and the letter case of its first word.
-/
namespace Timeshare

/-! ## Letter case -/

theorem toLower_of_not_ascii {c : Char} (hc : ¬ c.toNat < 128) : c.toLower = c := by
  refine dif_neg fun hletter => hc ?_
  have hlast : c.toNat ≤ 90 := UInt32.le_iff_toNat_le.1 hletter.2
  omega

theorem toNat_toLower_lt_iff (c : Char) : c.toLower.toNat < 128 ↔ c.toNat < 128 := by
  by_cases hc : c.toNat < 128
  · have hlower : c.toLower.toNat < 128 := of_ascii (P := (·.toLower.toNat < 128)) (by decide) hc
    exact iff_of_true hlower hc
  · rw [toLower_of_not_ascii hc]

theorem isBlank_toLower (c : Char) : isBlank c.toLower = isBlank c := by
  by_cases hc : c.toNat < 128
  · exact of_ascii (P := fun c => isBlank c.toLower = isBlank c) (by decide) hc
  · rw [toLower_of_not_ascii hc]

/-- A small letter is ASCII, no white space, and its own lower case. -/
theorem of_smallLetter {c : Char} (h : ('a' ≤ c && c ≤ 'z') = true) :
    c.toNat < 128 ∧ isBlank c = false ∧ c.toLower = c := by
  have hc : c.toNat < 128 := by
    have hlast : c ≤ 'z' := of_decide_eq_true (Bool.and_eq_true_iff.1 h).2
    have hlast' : c.toNat ≤ 122 := UInt32.le_iff_toNat_le.1 hlast
    omega
  exact ⟨hc, of_ascii
    (P := fun c => ('a' ≤ c && c ≤ 'z') = true → isBlank c = false ∧ c.toLower = c)
    (by decide) hc h⟩

theorem LowerCase.lowerFrom_of_ascii {text : List Char} (h : ∀ c ∈ text, c.toNat < 128)
    (before lowered : List Char) :
    lowerFrom before lowered text = lowered.reverse ++ text.map Char.toLower := by
  induction text generalizing before lowered with
  | nil => rw [lowerFrom, List.map_nil, List.append_nil]
  | cons c text ih =>
    have hc := h c List.mem_cons_self
    have hlower : lowerChar c = c.toLower := if_pos hc
    unfold lowerFrom
    split
    · rename_i hnil
      cases hnil
    · -- sigma has two lower-case forms, and is no ASCII character
      rename_i hsigma
      rw [(List.cons.inj hsigma).1] at hc
      exact absurd hc (by decide)
    · rename_i hdotted
      rw [(List.cons.inj hdotted).1] at hc
      exact absurd hc (by decide)
    · rename_i hcons
      obtain ⟨rfl, rfl⟩ := List.cons.inj hcons
      rw [ih (fun c hc => h c (List.mem_cons_of_mem _ hc)), hlower, List.reverse_cons,
        List.append_assoc, List.map_cons]
      rfl

/-- An ASCII text is lower-cased letter by letter. -/
theorem lowerCase_of_ascii {text : List Char} (h : ∀ c ∈ text, c.toNat < 128) :
    lowerCase (String.ofList text) = String.ofList (text.map Char.toLower) := by
  rw [lowerCase, String.toList_ofList, LowerCase.lowerFrom_of_ascii h]
  rfl

/-- Two texts that differ in the letter case of ASCII letters alone. -/
def SameLetters (text text' : List Char) : Prop :=
  text'.map Char.toLower = text.map Char.toLower

namespace SameLetters

variable {text text' : List Char}

theorem exists_mem (h : SameLetters text text') {c' : Char} (hc : c' ∈ text') :
    ∃ c ∈ text, c.toLower = c'.toLower := by
  have hmem : c'.toLower ∈ text.map Char.toLower := h ▸ List.mem_map_of_mem hc
  exact List.mem_map.1 hmem

theorem isWord (h : SameLetters text text') (hword : IsWord text) : IsWord text' := by
  refine ⟨fun hnil => hword.ne_nil ?_, fun c' hc' => ?_⟩
  · rw [SameLetters, hnil] at h
    exact List.map_eq_nil_iff.1 h.symm
  · obtain ⟨c, hc, hsame⟩ := h.exists_mem hc'
    rw [← isBlank_toLower, ← hsame, isBlank_toLower]
    exact hword.noBlank c hc

theorem lowerCase_eq (h : SameLetters text text') (hascii : ∀ c ∈ text, c.toNat < 128) :
    lowerCase (String.ofList text') = lowerCase (String.ofList text) := by
  have hascii' : ∀ c ∈ text', c.toNat < 128 := fun c' hc' => by
    obtain ⟨c, hc, hsame⟩ := h.exists_mem hc'
    rw [← toNat_toLower_lt_iff, ← hsame, toNat_toLower_lt_iff]
    exact hascii c hc
  rw [lowerCase_of_ascii hascii', lowerCase_of_ascii hascii, h]

end SameLetters

/-! ## White space -/

/-- A run of white space that separates words. -/
structure IsGap (gap : List Char) : Prop where
  ne_nil : gap ≠ []
  blank : ∀ c ∈ gap, isBlank c = true

theorem wordsOf_append_of_blank {front : List Char} (h : ∀ c ∈ front, isBlank c = true)
    (text : List Char) : wordsOf (front ++ text) = wordsOf text := by
  induction front with
  | nil => rfl
  | cons c front ih =>
    have hsplit := wordsOf_append_cons [] (front ++ text) (h c List.mem_cons_self)
    exact hsplit.trans (ih fun c hc => h c (List.mem_cons_of_mem _ hc))

theorem wordsOf_append_gap (before after : List Char) {gap : List Char} (h : IsGap gap) :
    wordsOf (before ++ gap ++ after) = wordsOf before ++ wordsOf after := by
  obtain ⟨c, gap, rfl⟩ := List.exists_cons_of_ne_nil h.ne_nil
  rw [List.append_assoc, List.cons_append, wordsOf_append_cons _ _ (h.blank c List.mem_cons_self),
    wordsOf_append_of_blank fun c hc => h.blank c (List.mem_cons_of_mem _ hc)]

theorem wordsOf_append_back (text : List Char) {back : List Char}
    (h : ∀ c ∈ back, isBlank c = true) : wordsOf (text ++ back) = wordsOf text := by
  by_cases hnil : back = []
  · rw [hnil, List.append_nil]
  · have hgap := wordsOf_append_gap text [] (IsGap.mk hnil h)
    rw [List.append_nil] at hgap
    exact hgap.trans (List.append_nil _)

/-- A word at the front of a line, up to the first white space behind it. -/
theorem wordsOf_front {front name rest : List Char} (hfront : ∀ c ∈ front, isBlank c = true)
    (hname : IsWord name) (hrest : ∀ c ∈ rest.head?, isBlank c = true) :
    wordsOf (front ++ name ++ rest) = name :: wordsOf rest := by
  rw [List.append_assoc, wordsOf_append_of_blank hfront]
  cases rest with
  | nil => rw [List.append_nil, wordsOf_of_isWord hname]; rfl
  | cons c rest =>
    have hc : isBlank c = true := hrest c rfl
    rw [wordsOf_append_cons name rest hc, wordsOf_of_isWord hname]
    exact congrArg _ (wordsOf_append_cons [] rest hc).symm

/-- The same line in another spelling: a run of white space is another one, there is white space
around the line, or the first word, which is ASCII, is written with letters of the other case. -/
inductive Respelled : List Char → List Char → Prop
  | gap (before gap gap' after : List Char) (hgap : IsGap gap) (hgap' : IsGap gap') :
      Respelled (before ++ gap ++ after) (before ++ gap' ++ after)
  | around (front line back : List Char) (hfront : ∀ c ∈ front, isBlank c = true)
      (hback : ∀ c ∈ back, isBlank c = true) : Respelled line (front ++ line ++ back)
  | letters (front name name' rest : List Char) (hfront : ∀ c ∈ front, isBlank c = true)
      (hname : IsWord name) (hascii : ∀ c ∈ name, c.toNat < 128) (hsame : SameLetters name name')
      (hrest : ∀ c ∈ rest.head?, isBlank c = true) :
      Respelled (front ++ name ++ rest) (front ++ name' ++ rest)
  | trans {line line' line'' : List Char} (h : Respelled line line') (h' : Respelled line' line'') :
      Respelled line line''

namespace Command

/-- A line is read by its words. -/
theorem parse_congr {line line' : List Char} (h : wordsOf line' = wordsOf line) :
    parse (String.ofList line') = parse (String.ofList line) := by
  simp only [parse, words, String.toList_ofList, h]

theorem parse_front {front name rest : List Char} (hfront : ∀ c ∈ front, isBlank c = true)
    (hname : IsWord name) (hrest : ∀ c ∈ rest.head?, isBlank c = true) :
    parse (String.ofList (front ++ name ++ rest)) =
      ofWords (lowerCase (String.ofList name)) ((wordsOf rest).map String.ofList) := by
  simp only [parse, words, String.toList_ofList, wordsOf_front hfront hname hrest, List.map_cons]

/-- Another spelling of a line is read the same. -/
theorem parse_of_respelled {line line' : List Char} (h : Respelled line line') :
    parse (String.ofList line') = parse (String.ofList line) := by
  induction h with
  | gap before gap gap' after hgap hgap' =>
    have hwords := wordsOf_append_gap before after hgap'
    exact parse_congr (hwords.trans (wordsOf_append_gap before after hgap).symm)
  | around front line back hfront hback =>
    have hwords := wordsOf_append_back (front ++ line) hback
    exact parse_congr (hwords.trans (wordsOf_append_of_blank hfront line))
  | letters front name name' rest hfront hname hascii hsame hrest =>
    rw [parse_front hfront hname hrest, parse_front hfront (hsame.isWord hname) hrest,
      hsame.lowerCase_eq hascii]
  | trans _ _ ih ih' => exact ih'.trans ih

/-! ## Lines -/

/-- A text as what follows on a line: nothing if there is no text. -/
def textPart (text : String) : List String := if text = "" then [] else [text]

/-- A number in hexadecimal digits. -/
def addressPart (n : Nat) : String := String.ofList (Nat.toDigits 16 n)

/-- The three numbers of a disk address. -/
def keyParts (place : BlockKey) : List String :=
  [toString place.track.toNat, toString place.sector.toNat, toString place.block.toNat]

/-- The parts of the line of a command: its name, and its arguments in order. -/
def parts : Command → List String
  | help => ["help"]
  | load program => "load" :: textPart program
  | run pid => ["run", toString pid.toNat]
  | runAll => ["runall"]
  | step => ["step"]
  | stepMode enabled => ["stepmode", if enabled then "on" else "off"]
  | tick count => ["tick", toString count]
  | quantum cycles => ["quantum", toString cycles]
  | policy name => ["policy", name]
  | kill pid => ["kill", toString pid.toNat]
  | timer => ["timer"]
  | key text => "key" :: textPart text
  | input => ["input"]
  | format => ["format"]
  | diskWrite place bytes => "disk" :: "write" :: (keyParts place ++ textPart bytes)
  | diskRead place => "disk" :: "read" :: keyParts place
  | memory address length => ["mem", addressPart address, addressPart length]
  | processes => ["ps"]
  | quit => ["quit"]
  | empty | invalid _ => []

/-- The line that asks for a command, with one blank between each two parts. -/
def line (c : Command) : String := joined c.parts

/-- Words with one blank between each two. -/
def IsPhrase (text : String) : Prop :=
  ∃ ws : List String, (∀ word ∈ ws, IsWord word.toList) ∧ joined ws = text

/-- The commands that a line can ask for: numbers are below the bounds of their fields, and texts are
phrases. -/
def Sayable : Command → Prop
  | load text | key text | diskWrite _ text => IsPhrase text
  | tick count => count < UInt64.size
  | quantum cycles => cycles < UInt32.size
  | policy name => IsWord name.toList
  | memory address length => address < UInt64.size ∧ length < UInt64.size
  | invalid _ => False
  | _ => True

/-! ## Reading what was written -/

theorem flatMap_words {ws : List String} (h : ∀ word ∈ ws, IsWord word.toList) :
    ws.flatMap words = ws := by
  induction ws with
  | nil => rfl
  | cons word ws ih =>
    rw [List.flatMap_cons, words_of_isWord (h word List.mem_cons_self),
      ih fun w hw => h w (List.mem_cons_of_mem _ hw)]
    rfl

theorem IsPhrase.joined_words {text : String} (h : IsPhrase text) : joined (words text) = text := by
  obtain ⟨ws, hws, rfl⟩ := h
  rw [words_joined_texts, flatMap_words hws]

theorem flatMap_words_textPart (text : String) : (textPart text).flatMap words = words text := by
  unfold textPart
  split
  · rename_i hnone
    rw [hnone]
    decide
  · rw [List.flatMap_singleton]

/-- A name in small letters. -/
def isName (name : String) : Bool :=
  !name.toList.isEmpty && name.toList.all fun c => 'a' ≤ c && c ≤ 'z'

/-- A line that begins with a name in small letters is read as the command with this name. -/
theorem parse_parts (name : String) (hname : isName name = true) (texts : List String) :
    parse (joined (name :: texts)) = ofWords name (texts.flatMap words) := by
  obtain ⟨hne, hall⟩ := Bool.and_eq_true_iff.1 hname
  have hletters : ∀ c ∈ name.toList, c.toNat < 128 ∧ isBlank c = false ∧ c.toLower = c :=
    fun c hc => of_smallLetter (List.all_eq_true.1 hall c hc)
  have hword : IsWord name.toList := ⟨by simpa using hne, fun c hc => (hletters c hc).2.1⟩
  have hlower : lowerCase name = name := by
    have hown : name.toList.map Char.toLower = name.toList :=
      (List.map_congr_left fun c hc => (hletters c hc).2.2).trans (List.map_id _)
    have hascii := lowerCase_of_ascii fun c hc => (hletters c hc).1
    rwa [hown, String.ofList_toList] at hascii
  rw [parse, words_joined_texts, List.flatMap_cons, words_of_isWord hword, List.singleton_append]
  simp only [hlower]

/-- The same for arguments of one word each. -/
theorem parse_words (name : String) (hname : isName name = true) {arguments : List String}
    (h : ∀ word ∈ arguments, IsWord word.toList) :
    parse (joined (name :: arguments)) = ofWords name arguments := by
  rw [parse_parts name hname, flatMap_words h]

/-- The same for a text that may have any number of words. -/
theorem parse_text (name : String) (hname : isName name = true) (text : String) :
    parse (joined (name :: textPart text)) = ofWords name (words text) := by
  rw [parse_parts name hname, flatMap_words_textPart]

theorem isWord_of_mem_numbers (numbers : List Nat) :
    ∀ word ∈ numbers.map toString, IsWord word.toList := by
  intro word h
  obtain ⟨n, -, rfl⟩ := List.mem_map.1 h
  exact Numeral.isWord_toString n

theorem isWord_of_mem_keyParts (place : BlockKey) :
    ∀ word ∈ keyParts place, IsWord word.toList :=
  isWord_of_mem_numbers [place.track.toNat, place.sector.toNat, place.block.toNat]

theorem pid?_toString (pid : Pid) : pid? (toString pid.toNat) = some pid := by
  rw [pid?, Numeral.number?_toString pid.toNat_lt, Option.map_some]
  exact congrArg some UInt32.ofNat_toNat

theorem blockKey?_keyParts (place : BlockKey) :
    blockKey? (toString place.track.toNat) (toString place.sector.toNat)
      (toString place.block.toNat) = some place := by
  simp only [blockKey?, byte?_toString]
  rfl

theorem isWord_addressPart (n : Nat) : IsWord (addressPart n).toList := by
  rw [addressPart, String.toList_ofList]
  exact Numeral.isWord_toDigits (by decide) (by decide) n

theorem address?_addressPart {n : Nat} (h : n < UInt64.size) :
    address? (addressPart n) = some n := by
  rw [address?, addressPart, String.toList_ofList]
  exact Numeral.read?_toDigits (by decide) (by decide) h

/-- The line of a command is read as the command. -/
theorem parse_line {c : Command} (h : c.Sayable) : parse c.line = c := by
  cases c with
  | help => exact parse_words "help" rfl nofun
  | load program =>
    have hline := parse_text "load" rfl program
    exact hline.trans (congrArg load (IsPhrase.joined_words h))
  | run pid =>
    have hread : parseRun [toString pid.toNat] = some (run pid) := by
      rw [parseRun, pid?_toString]
      rfl
    have hline := parse_words "run" rfl (isWord_of_mem_numbers [pid.toNat])
    exact hline.trans (congrArg (orUsage _) hread)
  | runAll => exact parse_words "runall" rfl nofun
  | step => exact parse_words "step" rfl nofun
  | stepMode enabled =>
    cases enabled with
    | true => exact parse_parts "stepmode" rfl ["on"]
    | false => exact parse_parts "stepmode" rfl ["off"]
  | tick count =>
    have hread : parseTick [toString count] = some (tick count) := by
      rw [parseTick, Numeral.number?_toString h]
      rfl
    have hline := parse_words "tick" rfl (isWord_of_mem_numbers [count])
    exact hline.trans (congrArg (orUsage _) hread)
  | quantum cycles =>
    have hread : parseQuantum [toString cycles] = some (quantum cycles) := by
      rw [parseQuantum, Numeral.number?_toString h]
      rfl
    have hline := parse_words "quantum" rfl (isWord_of_mem_numbers [cycles])
    exact hline.trans (congrArg (orUsage _) hread)
  | policy name =>
    have hname : ∀ word ∈ [name], IsWord word.toList := fun word hword => by
      rwa [List.mem_singleton.1 hword]
    exact parse_words "policy" rfl hname
  | kill pid =>
    have hread : parseKill [toString pid.toNat] = some (kill pid) := by
      rw [parseKill, pid?_toString]
      rfl
    have hline := parse_words "kill" rfl (isWord_of_mem_numbers [pid.toNat])
    exact hline.trans (congrArg (orUsage _) hread)
  | timer => exact parse_words "timer" rfl nofun
  | key text =>
    have hline := parse_text "key" rfl text
    exact hline.trans (congrArg key (IsPhrase.joined_words h))
  | input => exact parse_words "input" rfl nofun
  | format => exact parse_words "format" rfl nofun
  | diskWrite place bytes =>
    have hread : parseDisk ("write" :: (keyParts place ++ words bytes)) =
        some (diskWrite place bytes) := by
      show (blockKey? _ _ _).map (diskWrite · (joined (words bytes))) = _
      rw [blockKey?_keyParts, Option.map_some, IsPhrase.joined_words h]
    have hline := parse_parts "disk" rfl
      (["write"] ++ (keyParts place ++ textPart bytes))
    rw [List.flatMap_append, List.flatMap_append, flatMap_words (isWord_of_mem_keyParts place),
      flatMap_words_textPart] at hline
    exact hline.trans (congrArg (orUsage _) hread)
  | diskRead place =>
    have hread : parseDisk ("read" :: keyParts place) = some (diskRead place) := by
      show (blockKey? _ _ _).map diskRead = _
      rw [blockKey?_keyParts, Option.map_some]
    have hline := parse_parts "disk" rfl (["read"] ++ keyParts place)
    rw [List.flatMap_append, flatMap_words (isWord_of_mem_keyParts place)] at hline
    exact hline.trans (congrArg (orUsage _) hread)
  | memory address length =>
    have hread : parseMemory [addressPart address, addressPart length] =
        some (memory address length) := by
      simp only [parseMemory, address?_addressPart h.1, address?_addressPart h.2]
      rfl
    have hparts : ∀ word ∈ [addressPart address, addressPart length], IsWord word.toList := by
      simp [isWord_addressPart]
    have hline := parse_words "mem" rfl hparts
    exact hline.trans (congrArg (orUsage _) hread)
  | processes => exact parse_words "ps" rfl nofun
  | quit => exact parse_words "quit" rfl nofun
  | empty => rfl
  | invalid reason => exact h.elim

/-! ## What can be read -/

theorem lt_of_read? {radix bound n : Nat} {numeral : List Char}
    (h : Numeral.read? radix bound numeral = some n) : n < bound :=
  of_decide_eq_true (Option.filter_eq_some_iff.1 h).2

theorem sayable_of_map {α : Type} {read : Option α} {command : α → Command} {c : Command}
    (h : read.map command = some c) (hread : ∀ a, read = some a → (command a).Sayable) :
    c.Sayable := by
  obtain ⟨a, ha, rfl⟩ := Option.map_eq_some_iff.1 h
  exact hread a ha

theorem sayable_parseRun {arguments : List String} {c : Command} (h : parseRun arguments = some c) :
    c.Sayable := by
  cases arguments with
  | nil => cases h
  | cons word rest => exact sayable_of_map h fun _ _ => trivial

theorem sayable_parseKill {arguments : List String} {c : Command}
    (h : parseKill arguments = some c) : c.Sayable := by
  cases arguments with
  | nil => cases h
  | cons word rest => exact sayable_of_map h fun _ _ => trivial

theorem sayable_parseStepMode {arguments : List String} {c : Command}
    (h : parseStepMode arguments = some c) : c.Sayable := by
  unfold parseStepMode at h
  split at h
  · obtain rfl := Option.some.inj h
    trivial
  · obtain rfl := Option.some.inj h
    trivial
  · cases h

theorem sayable_parseTick {arguments : List String} {c : Command}
    (h : parseTick arguments = some c) : c.Sayable := by
  cases arguments with
  | nil =>
    obtain rfl := Option.some.inj h
    show 1 < UInt64.size
    decide
  | cons word rest => exact sayable_of_map h fun _ => lt_of_read?

theorem sayable_parseQuantum {arguments : List String} {c : Command}
    (h : parseQuantum arguments = some c) : c.Sayable := by
  cases arguments with
  | nil => cases h
  | cons word rest => exact sayable_of_map h fun _ => lt_of_read?

theorem sayable_parsePolicy {arguments : List String}
    (hwords : ∀ word ∈ arguments, IsWord word.toList) {c : Command}
    (h : parsePolicy arguments = some c) : c.Sayable := by
  cases arguments with
  | nil => cases h
  | cons word rest =>
    obtain rfl := Option.some.inj h
    exact hwords word List.mem_cons_self

theorem sayable_parseDisk {arguments : List String}
    (hwords : ∀ word ∈ arguments, IsWord word.toList) {c : Command}
    (h : parseDisk arguments = some c) : c.Sayable := by
  unfold parseDisk at h
  split at h
  · rename_i track sector block bytes
    have hbytes : ∀ word ∈ bytes, IsWord word.toList := fun word hword =>
      hwords word (by simp [hword])
    exact sayable_of_map h fun _ _ => ⟨bytes, hbytes, rfl⟩
  · exact sayable_of_map h fun _ _ => trivial
  · cases h

theorem sayable_parseMemory {arguments : List String} {c : Command}
    (h : parseMemory arguments = some c) : c.Sayable := by
  unfold parseMemory at h
  split at h
  · exact sayable_of_map h fun _ haddress => ⟨lt_of_read? haddress, by decide⟩
  · obtain ⟨address, haddress, hrest⟩ := Option.bind_eq_some_iff.1 h
    obtain ⟨length, hlength, hc⟩ := Option.bind_eq_some_iff.1 hrest
    obtain rfl := Option.some.inj hc
    exact ⟨lt_of_read? haddress, lt_of_read? hlength⟩
  · cases h

theorem sayable_orUsage {usage : String} {read : Option Command}
    (h : ∀ c, read = some c → c.Sayable) :
    (orUsage usage read).Sayable ∨ ∃ reason, orUsage usage read = invalid reason := by
  cases read with
  | none => exact .inr ⟨_, rfl⟩
  | some c => exact .inl (h c rfl)

theorem sayable_ofWords (name : String) {arguments : List String}
    (h : ∀ word ∈ arguments, IsWord word.toList) :
    (ofWords name arguments).Sayable ∨ ∃ reason, ofWords name arguments = invalid reason := by
  have hphrase : IsPhrase (joined arguments) := ⟨arguments, h, rfl⟩
  -- one case for each name, in the order of the names in `ofWords`
  unfold ofWords
  split
  · exact .inl trivial
  · exact .inl trivial
  · exact .inl hphrase
  · exact sayable_orUsage fun _ => sayable_parseRun
  · exact .inl trivial
  · exact .inl trivial
  · exact sayable_orUsage fun _ => sayable_parseStepMode
  · exact sayable_orUsage fun _ => sayable_parseTick
  · exact sayable_orUsage fun _ => sayable_parseQuantum
  · exact sayable_orUsage fun _ => sayable_parsePolicy h
  · exact sayable_orUsage fun _ => sayable_parseKill
  · exact .inl trivial
  · exact .inl hphrase
  · exact .inl trivial
  · exact .inl trivial
  · exact sayable_orUsage fun _ => sayable_parseDisk h
  · exact sayable_orUsage fun _ => sayable_parseMemory
  · exact .inl trivial
  · exact .inl trivial
  · exact .inl trivial
  · exact .inr ⟨_, rfl⟩

/-- Whatever a line asks for has a line of its own. -/
theorem sayable_parse (line : String) :
    (parse line).Sayable ∨ ∃ reason, parse line = invalid reason := by
  rw [parse]
  split
  · exact .inl trivial
  · rename_i name arguments hwords
    refine sayable_ofWords _ fun word hword => ?_
    exact isWord_of_mem_words (hwords ▸ List.mem_cons_of_mem name hword)

/-- **Reading undoes writing.** The commands that a line can ask for, apart from what is no command,
are those whose numbers fit their fields and whose texts are words with one blank between each two,
and each is read from the line that is written for it. Which white space stands between the words of
a line and around them makes no difference, nor does the letter case of an ASCII name of a command. -/
theorem parse_undoes_line :
    (∀ c : Command, c.Sayable ↔ (∃ line, parse line = c) ∧ ∀ reason, c ≠ invalid reason) ∧
    (∀ c : Command, c.Sayable → parse c.line = c) ∧
    ∀ line line' : String, Respelled line.toList line'.toList → parse line' = parse line := by
  refine ⟨fun c => ⟨fun h => ⟨⟨c.line, parse_line h⟩, ?_⟩, ?_⟩, fun c => parse_line,
    fun line line' h => ?_⟩
  · rintro reason rfl
    exact h
  · rintro ⟨⟨line, rfl⟩, hvalid⟩
    exact (sayable_parse line).resolve_right fun ⟨reason, hreason⟩ => hvalid reason hreason
  · have hsame := parse_of_respelled h
    rwa [String.ofList_toList, String.ofList_toList] at hsame

/-- The data of a disk block, and a line with other white space and in capitals. -/
theorem parse_undoes_line_small :
    (diskWrite ⟨1, 2, 3⟩ "AB CD").Sayable ∧
      parse "disk write 1 2 3 AB CD" = diskWrite ⟨1, 2, 3⟩ "AB CD" ∧
      Respelled "run 2".toList "\tRUN\u2003 2".toList ∧ parse "\tRUN\u2003 2" = parse "run 2" := by
  have hsayable : (diskWrite ⟨1, 2, 3⟩ "AB CD").Sayable := by
    refine ⟨["AB", "CD"], fun word hword => ?_, rfl⟩
    rcases List.mem_cons.1 hword with rfl | hword
    · exact isWord_of_all (by decide) (by decide)
    · obtain rfl := List.mem_singleton.1 hword
      exact isWord_of_all (by decide) (by decide)
  have hrun : IsWord "run".toList := isWord_of_all (by decide) (by decide)
  have hletters : Respelled "run 2".toList "RUN 2".toList :=
    .letters [] "run".toList "RUN".toList [' ', '2'] nofun hrun (by simp) rfl (by simp [isBlank])
  have hgap : Respelled "RUN 2".toList "RUN\u2003 2".toList :=
    .gap "RUN".toList [' '] ['\u2003', ' '] ['2'] ⟨nofun, by simp [isBlank]⟩
      ⟨nofun, by simp [isBlank]⟩
  have haround : Respelled "RUN\u2003 2".toList "\tRUN\u2003 2".toList :=
    .around ['\t'] "RUN\u2003 2".toList [] (by simp [isBlank]) nofun
  have hrespelled := (hletters.trans hgap).trans haround
  obtain ⟨-, hread, hsame⟩ := parse_undoes_line
  exact ⟨hsayable, hread _ hsayable, hrespelled, hsame _ _ hrespelled⟩

end Command

end Timeshare

import HdlAlign.Proofs.LineEndings
import HdlAlign.Proofs.Units
import HdlAlign.Source.FileSet

/-! Loading a stored text and storing a loaded one undo each other. -/

namespace HdlAlign

open Text

/-! Line endings of what is stored -/

theorem dropReturns_restoreReturns (text : Text) : dropReturns (restoreReturns text) = text := by
  induction text with
  | nil => rfl
  | cons byte rest ih =>
      rw [restoreReturns_cons]
      split
      · next isNewline =>
          subst isNewline
          rw [List.cons_append, List.cons_append, List.nil_append, dropReturns_return, ih]
      · next other =>
          have apart : (restoreReturns rest).head? ≠ some newline := by
            cases rest with
            | nil => exact nofun
            | cons next rest =>
                rw [restoreReturns_cons]
                split
                · exact nofun
                · next notNewline => exact fun same => notNewline (Option.some.inj same)
          rw [List.singleton_append, dropReturns_cons fun _ => apart, ih]

theorem hasReturns_restoreReturns (text : Text) :
    hasReturns (restoreReturns text) = decide (newline ∈ text) := by
  induction text with
  | nil => rfl
  | cons byte rest ih =>
      rw [restoreReturns_cons]
      split
      · next isNewline =>
          subst isNewline
          simp [hasReturns]
      · next other =>
          have step : hasReturns (byte :: restoreReturns rest) = hasReturns (restoreReturns rest) := by
            cases rest with
            | nil => rfl
            | cons next rest =>
                rw [restoreReturns_cons]
                split
                · simp [hasReturns, newline]
                · next notNewline => simp [hasReturns, notNewline]
          rw [List.singleton_append, step, ih]
          simp [Ne.symm other]

namespace Utf8

theorem newline_mem_encodeChar {c : Char} (member : newline ∈ encodeChar c) : c = '\n' :=
  encodeChar_eq_of_mem member (by decide)

theorem restoreReturns_encodeChar (c : Char) :
    restoreReturns (encodeChar c) = encode (if c = '\n' then ['\r', '\n'] else [c]) := by
  split
  · next isNewline =>
      subst isNewline
      rfl
  · next other =>
      have same : ∀ byte ∈ encodeChar c,
          (if byte = newline then [0x0D, byte] else [byte]) = [byte] := by
        intro byte member
        rw [if_neg]
        rintro rfl
        exact other (newline_mem_encodeChar member)
      rw [restoreReturns, List.flatMap_congr same, List.flatMap_singleton', encode,
        List.flatMap_singleton]

theorem restoreReturns_encode (cs : List Char) :
    restoreReturns (encode cs) = encode (cs.flatMap fun c => if c = '\n' then ['\r', '\n'] else [c]) := by
  induction cs with
  | nil => rfl
  | cons c cs ih =>
      rw [encode_cons, restoreReturns_append, restoreReturns_encodeChar, ih, List.flatMap_cons]
      simp only [encode, List.flatMap_append]

theorem isValid_restoreReturns {text : Text} (valid : isValid text) :
    isValid (restoreReturns text) := by
  rw [← encode_chars valid, restoreReturns_encode]
  exact isValid_encode _

theorem head?_chars_restoreReturns {text : Text} (valid : isValid text) {c : Char}
    (other : c ≠ '\r') (unmarked : (chars text).head? ≠ some c) :
    (chars (restoreReturns text)).head? ≠ some c := by
  rw [← encode_chars valid, restoreReturns_encode, chars_encode]
  cases split : chars text with
  | nil => exact nofun
  | cons first others =>
      rw [split] at unmarked
      rw [List.flatMap_cons]
      split
      · exact fun same => other (Option.some.inj same).symm
      · exact unmarked

end Utf8

namespace Storage

open Utf8

/-! Repair leaves well-formed text alone -/

theorem repair_of_sequence? {text tail : Text} {scalar : Scalar}
    (found : sequence? text = some (scalar, tail)) :
    repair text = scalar.bytes ++ repair tail := by
  rw [(sequence?_bytes found).1]
  rcases sequence?_cases found with ⟨a, lead, rfl⟩ | ⟨a, b, lead, second, rfl⟩ |
    ⟨a, b, c, lead, second, third, rfl⟩ | ⟨a, b, c, d, lead, second, third, fourth, rfl⟩
  · simp [repair.eq_def (a :: _), lead]
  · simp [repair.eq_def (a :: _), lead, second]
  · simp [repair.eq_def (a :: _), lead, second, third]
  · simp [repair.eq_def (a :: _), lead, second, third, fourth]

theorem repair_of_isValid {text : Text} (valid : isValid text) : repair text = text := by
  obtain ⟨cs, rfl⟩ := eq_encode_of_isValid valid
  induction cs with
  | nil => rfl
  | cons c cs ih =>
      rw [encode_cons, repair_of_sequence? (sequence?_encodeChar c _), ih (isValid_encode cs)]

/-! The mark in front -/

theorem head?_chars_utf8Bytes (rest : Text) :
    (chars (utf8Bytes ++ rest)).head? = some (Char.ofNat 0xFEFF) := by
  have found : sequence? (utf8Bytes ++ rest) = some (⟨Char.ofNat 0xFEFF, utf8Bytes⟩, rest) :=
    sequence?_encodeChar (Char.ofNat 0xFEFF) rest
  rw [chars, scalars_of_sequence? found]
  rfl

theorem not_isValid_of_announced {a : UInt8} (rest : Text) (never : announced a = 0) :
    isValid (a :: rest) = false := by
  have absent : sequence? (a :: rest) = none := by simp [sequence?, never]
  rw [isValid, scalars_of_no_sequence absent, List.all_cons]
  simp [illFormed, Scalar.isIllFormed]

theorem startsWith_eq_false {text affix : Text} (other : ∀ rest, text ≠ affix ++ rest) :
    text.startsWith affix = false := by
  rw [← Bool.not_eq_true, startsWith, List.isPrefixOf_iff_prefix]
  rintro ⟨rest, rfl⟩
  exact other rest rfl

theorem ofRaw_of_isValid {text : Text} (valid : isValid text)
    (unmarked : (chars text).head? ≠ some (Char.ofNat 0xFEFF)) : ofRaw text = plain := by
  have noMark : text.startsWith utf8Bytes = false :=
    startsWith_eq_false fun rest same => unmarked (same ▸ head?_chars_utf8Bytes rest)
  have noBytes (big : Bool) : text.startsWith (mark (utf16 big)) = false := by
    apply startsWith_eq_false
    rintro rest rfl
    cases big
    · exact absurd valid (by simp [mark, not_isValid_of_announced _ (by decide : announced 0xFF = 0)])
    · exact absurd valid (by simp [mark, not_isValid_of_announced _ (by decide : announced 0xFE = 0)])
  rw [ofRaw, noMark, noBytes, noBytes]
  rfl

theorem ofRaw_mark (storage : Storage) (marked : storage ≠ plain) (body : Text) :
    ofRaw (storage.mark ++ body) = storage := by
  cases storage with
  | plain => exact absurd rfl marked
  | utf8Mark => rfl
  | utf16 big => cases big <;> rfl

/-! Stored text -/

theorem ofRaw_encode (storage : Storage) {text : Text} (valid : isValid text)
    (unmarked : storage = plain → (chars text).head? ≠ some (Char.ofNat 0xFEFF)) :
    ofRaw (storage.encode text) = storage := by
  cases storage with
  | plain => exact ofRaw_of_isValid valid (unmarked rfl)
  | utf8Mark => exact ofRaw_mark utf8Mark nofun _
  | utf16 big => exact ofRaw_mark (utf16 big) nofun _

theorem decode_encode (storage : Storage) {text : Text} (valid : isValid text) :
    storage.decode (storage.encode text) = text := by
  cases storage with
  | plain => rfl
  | utf8Mark =>
      rw [encode, repair_of_isValid valid]
      exact List.drop_left
  | utf16 big =>
      show Utf8.encode (decode16 big (List.drop _ (mark _ ++ _))) = text
      rw [List.drop_left, decode16_flatMap, encode_chars valid]

/-- Bytes that a form of storage may leave: any without a mark, well-formed text behind one. -/
def WellStored : Storage → Text → Prop
  | plain, raw => ∀ storage ≠ plain, ¬ storage.mark <+: raw
  | utf8Mark, raw => ∃ body, raw = utf8Mark.mark ++ body ∧ isValid body
  | utf16 big, raw => ∃ body, raw = (utf16 big).mark ++ body ∧ Paired big body

theorem WellStored.ofRaw_eq {storage : Storage} {raw : Text} (stored : storage.WellStored raw) :
    ofRaw raw = storage := by
  cases storage with
  | plain =>
      have none (storage : Storage) (other : storage ≠ plain) :
          raw.startsWith storage.mark = false :=
        startsWith_eq_false fun rest same => stored storage other ⟨rest, same.symm⟩
      rw [ofRaw, none (utf16 true) nofun, none (utf16 false) nofun]
      exact if_neg (by simp [none utf8Mark nofun, ← show utf8Mark.mark = utf8Bytes from rfl])
  | utf8Mark =>
      obtain ⟨body, rfl, -⟩ := stored
      exact ofRaw_mark utf8Mark nofun body
  | utf16 big =>
      obtain ⟨body, rfl, -⟩ := stored
      exact ofRaw_mark (utf16 big) nofun body

theorem WellStored.encode_decode {storage : Storage} {raw : Text}
    (stored : storage.WellStored raw) : storage.encode (storage.decode raw) = raw := by
  cases storage with
  | plain => rfl
  | utf8Mark =>
      obtain ⟨body, rfl, valid⟩ := stored
      show _ ++ repair (List.drop _ (mark _ ++ _)) = _
      rw [List.drop_left, repair_of_isValid valid]
  | utf16 big =>
      obtain ⟨body, rfl, paired⟩ := stored
      show _ ++ (chars (Utf8.encode (decode16 big (List.drop _ (mark _ ++ _))))).flatMap _ = _
      rw [List.drop_left, chars_encode, flatMap_decode16 big paired]

end Storage

namespace FileMarks

theorem storage_of_marks {origin : FileMarks} (known : origin = 0 ∨ origin = virtual)
    (storage : Storage) (returned : Bool) :
    (origin ||| ofStorage storage ||| if returned then returns else 0).storage = storage ∧
      (origin ||| ofStorage storage ||| if returned then returns else 0).has returns = returned := by
  rcases known with rfl | rfl
  · rcases storage with _ | _ | _ | _ <;> cases returned <;> decide
  · rcases storage with _ | _ | _ | _ <;> cases returned <;> decide

end FileMarks

namespace FileSet

open SourceFile Utf8

/-- Loading what a file of some form stores adds its content again, in the same form.  Carriage
returns are found again if there was a newline to put one before. -/
theorem addRaw_encode (set : FileSet) (name : Text) {file : SourceFile} {origin : FileMarks}
    (known : origin = 0 ∨ origin = FileMarks.virtual) {storage : Storage} {returned : Bool}
    (marked : file.marks =
      (origin ||| FileMarks.ofStorage storage ||| if returned then FileMarks.returns else 0))
    {content : Text} (valid : isValid content)
    (unmarked : storage = .plain → (chars content).head? ≠ some (Char.ofNat 0xFEFF))
    (without : returned = false → hasReturns content = false) :
    set.addRaw name (file.encode content) =
      set.add name content (FileMarks.virtual ||| FileMarks.ofStorage storage |||
        if returned ∧ newline ∈ content then FileMarks.returns else 0) := by
  obtain ⟨form, flag⟩ := FileMarks.storage_of_marks known storage returned
  rw [← marked] at form flag
  cases returned with
  | false =>
      have stored : file.encode content = storage.encode content := by
        rw [SourceFile.encode, form, flag]
        rfl
      rw [addRaw, addStored, stored, Storage.ofRaw_encode storage valid unmarked,
        Storage.decode_encode storage valid, without rfl, dropReturns_of_not_hasReturns (without rfl)]
      simp
  | true =>
      have stored : file.encode content = storage.encode (restoreReturns content) := by
        rw [SourceFile.encode, form, flag]
        rfl
      have valid' := isValid_restoreReturns valid
      have unmarked' (isPlain : storage = .plain) :=
        head?_chars_restoreReturns valid (by decide) (unmarked isPlain)
      rw [addRaw, addStored, stored, Storage.ofRaw_encode storage valid' unmarked',
        Storage.decode_encode storage valid', hasReturns_restoreReturns,
        dropReturns_restoreReturns]
      simp

def wideContent : Text := [0x61, 0x0A, 0xF0, 0x9F, 0x98, 0x80]

def wideFile : SourceFile where
  id := 1
  path := "t.v"
  content := wideContent
  marks := 31

theorem addRaw_encode_wide :
    ({} : FileSet).addRaw "t.v" (wideFile.encode wideContent) =
      ({} : FileSet).add "t.v" wideContent 31 := by
  have marked : wideFile.marks = (FileMarks.virtual ||| FileMarks.ofStorage (.utf16 true) |||
      if true then FileMarks.returns else 0) := by decide
  have unmarked (isPlain : Storage.utf16 true = .plain) :
      (chars wideContent).head? ≠ some (Char.ofNat 0xFEFF) := nofun
  exact addRaw_encode {} "t.v" (.inr rfl) marked (by decide) unmarked nofun

/-- Storing a loaded file gives back the bytes it was loaded from, if they were well-formed and
had their carriage returns before all newlines or before none. -/
theorem encode_addRaw (set : FileSet) (name : Text) {storage : Storage} {raw : Text}
    (stored : storage.WellStored raw)
    (returned : hasReturns (storage.decode raw) → Returned false (storage.decode raw)) :
    ∃ file, (set.addRaw name raw).1.files = set.files ++ [file] ∧
      file.encode file.content = raw := by
  refine ⟨_, rfl, ?_⟩
  obtain ⟨form, flag⟩ := FileMarks.storage_of_marks (.inr rfl) storage
    (hasReturns (storage.decode raw))
  rw [SourceFile.encode]
  simp only [stored.ofRaw_eq]
  rw [form, flag]
  cases found : hasReturns (storage.decode raw) with
  | false =>
      rw [dropReturns_of_not_hasReturns found]
      exact stored.encode_decode
  | true =>
      rw [if_pos rfl, restoreReturns_dropReturns (returned found)]
      exact stored.encode_decode

def wideRaw : Text := [0xFF, 0xFE, 0x61, 0, 0x0D, 0, 0x0A, 0, 0x3D, 0xD8, 0x00, 0xDE]

theorem encode_addRaw_wide :
    ∃ file, (({} : FileSet).addRaw "t.v" wideRaw).1.files = [file] ∧
      file.encode file.content = wideRaw := by
  have paired : Storage.Paired false (wideRaw.drop 2) := by
    refine .single ?_ (.single ?_ (.single ?_ (.pair ?_ ?_ .nil))) <;> decide
  have stored : (Storage.utf16 false).WellStored wideRaw := ⟨wideRaw.drop 2, rfl, paired⟩
  have decoded : (Storage.utf16 false).decode wideRaw =
      [0x61, 0x0D, 0x0A, 0xF0, 0x9F, 0x98, 0x80] := by decide
  have returned : hasReturns ((Storage.utf16 false).decode wideRaw) →
      Returned false ((Storage.utf16 false).decode wideRaw) := by
    rw [decoded]
    decide
  exact encode_addRaw {} "t.v" stored returned

end FileSet

end HdlAlign

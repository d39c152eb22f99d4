import HdlAlign.Proofs.Collection
import HdlAlign.Proofs.LastNames

/-! Configured extensions, and the files that are collected because of them. -/

namespace HdlAlign

namespace Path

def sampleName (rest : Text) : Text := [('a' : UInt8), '.'] ++ rest

variable {rest : Text}

theorem isName_sampleName (plain : slash ∉ rest) : IsName (sampleName rest) := by
  refine ⟨List.cons_ne_nil _ _, ?_⟩
  rw [sampleName, List.mem_append, not_or]
  exact ⟨by decide, plain⟩

theorem proper_sampleName (rest : Text) : Disk.Proper (sampleName rest) := by
  have head : (sampleName rest).head? = some ('a' : UInt8) := rfl
  constructor <;>
  · intro same
    rw [same] at head
    exact absurd head (by decide)

theorem extension_sampleName (plain : slash ∉ rest) (last : ('.' : UInt8) ∉ rest) :
    extension (sampleName rest) = ('.' : UInt8) :: rest := by
  have front : Text.beforeLast? '.' (sampleName rest) = some [('a' : UInt8)] :=
    Text.beforeLast?_append [('a' : UInt8)] last
  rw [extension, Text.afterLast_of_not_mem (isName_sampleName plain).2, front]
  rfl

end Path

namespace Sources

def sampleDisk (rest : Text) : Disk where
  nodes := [([Path.sampleName rest], .file [] 0o644)]

variable {rest : Text}

theorem node?_sampleDisk (rest : Text) :
    (sampleDisk rest).node? [Path.sampleName rest] = some (.file [] 0o644) := by
  rw [Disk.node?_of_ne_nil _ (List.cons_ne_nil _ _), sampleDisk]
  simp

theorem isListed_sampleDisk (rest : Text) : (sampleDisk rest).IsListed := by
  refine Disk.isListed_of_nodes (fun entry member => ?_) rfl
  rw [sampleDisk] at member
  rw [List.mem_singleton.mp member]
  exact ⟨node?_sampleDisk rest, rfl⟩

theorem shown_sampleDisk (rest : Text) : Shown (sampleDisk rest) [] [Path.sampleName rest] :=
  shown_singleton_iff.mpr ⟨_, node?_sampleDisk rest, nofun⟩

theorem walkedPath_sampleName (plain : Path.slash ∉ rest) :
    walkedPath Path.dot [Path.sampleName rest] = Path.sampleName rest := by
  have isName := Path.isName_sampleName plain
  show Path.join Path.dot (Path.sampleName rest) = _
  rw [Path.join_of_isName (by decide) isName (Path.proper_sampleName rest)]
  exact List.append_nil _

/-- Every file below a directory of the list that has one of the extensions, to the character, is
collected, unless it is in a hidden directory or excluded. -/
def Honours (extensions : List Text) : Prop :=
  ∀ (disk : Disk) (excluded : Text → Bool) (paths : List Text) (path : Text) (place : Disk.Place)
    (names : List Text), disk.IsListed → (∀ path ∈ paths, ∃ node, disk.stat path = .ok node) →
      path ∈ paths → disk.find false path = .ok (place, .directory) → Shown disk place names →
        excluded (walkedPath path names) = false →
          Path.extension (walkedPath path names) ∈ extensions →
            ∃ files, collect disk extensions excluded paths = .ok files ∧ walkedPath path names ∈ files

/-- The extensions that a file can have, a dot and what follows it, stand there in lower case too. -/
def IsLowered (extensions : List Text) : Prop :=
  ∀ rest : Text, ('.' : UInt8) ∉ rest → Path.slash ∉ rest → ('.' : UInt8) :: rest ∈ extensions →
    Text.lowerCase (('.' : UInt8) :: rest) ∈ extensions

theorem honours_of_isLowered {extensions : List Text} (lowered : IsLowered extensions) :
    Honours extensions := by
  intro disk excluded paths path place names listed present member walked shown kept configured
  obtain ⟨files, collected, mem_files⟩ :=
    exists_collect extensions excluded listed present
  rw [searched_of_mem configured] at mem_files
  have suitable : Text.lowerCase (Path.extension (walkedPath path names)) ∈ extensions := by
    rcases Path.extension_cases (walkedPath path names) with none | ⟨rest, same, last, plain⟩
    · rw [none] at configured ⊢
      exact configured
    · rw [same] at configured ⊢
      exact lowered rest last plain configured
  exact ⟨files, collected, (mem_files _).mpr
    ⟨⟨path, member, .inl (.below walked shown suitable)⟩, kept⟩⟩

theorem Stands.suitable {disk : Disk} {extensions : List Text} {path file : Text} {place : Disk.Place}
    (stands : Stands disk extensions path file)
    (walked : disk.find false path = .ok (place, .directory)) :
    Text.lowerCase (Path.extension file) ∈ extensions := by
  cases stands with
  | itself found other =>
      exact absurd (Except.ok.inj (found.symm.trans (Disk.stat_of_find walked))) other
  | below _ _ suitable => exact suitable

theorem isLowered_of_honours {extensions : List Text} (honours : Honours extensions) :
    IsLowered extensions := by
  intro rest last plain configured
  have listed := isListed_sampleDisk rest
  have walked : (sampleDisk rest).find false Path.dot = .ok ([], .directory) := rfl
  have present : ∀ other ∈ [Path.dot], ∃ node, (sampleDisk rest).stat other = .ok node := by
    simpa using ⟨_, Disk.stat_of_find walked⟩
  have same := walkedPath_sampleName plain
  have named := Path.extension_sampleName plain last
  obtain ⟨files, collected, member⟩ :=
    honours (sampleDisk rest) (fun _ => false) [Path.dot] Path.dot [] [Path.sampleName rest] listed
      present List.mem_cons_self walked (shown_sampleDisk rest) rfl (by rwa [same, named])
  obtain ⟨files', collected', mem_files⟩ :=
    exists_collect extensions (fun _ => false) listed present
  rw [searched_of_mem configured] at mem_files
  obtain rfl := Except.ok.inj (collected'.symm.trans collected)
  rw [same] at member
  obtain ⟨⟨other, listed', stands⟩, -⟩ := (mem_files _).mp member
  rw [List.mem_singleton.mp listed'] at stands
  rw [← named]
  rcases stands with stands | ⟨forwards, -⟩
  · exact stands.suitable walked
  · exact absurd walked (forwards.2 [])

/-- The extensions of settings are honoured exactly if they are there in lower case. -/
theorem honours_iff (settings : Settings) :
    Honours settings.extensions ↔ IsLowered settings.extensions :=
  ⟨isLowered_of_honours, honours_of_isLowered⟩

def capitalDisk : Disk where
  nodes := [([Text.ofString ".vlalign.toml"], .file "[files]\nextensions = [\".SV\"]\n" 0o644),
    ([Text.ofString "a.SV"], .file [] 0o644)]

theorem capital_extension_ignored :
    (Settings.load capitalDisk ".vlalign.toml").toOption.map Settings.extensions =
        some (Text.literals [".SV"]) ∧
      Shown capitalDisk [] (Text.literals ["a.SV"]) ∧
      Path.extension (walkedPath Path.dot (Text.literals ["a.SV"])) = Text.ofString ".SV" ∧
      collect capitalDisk (Text.literals [".SV"]) (fun _ => false) [Path.dot] = .ok [] := by
  refine ⟨by decide +kernel, shown_singleton_iff.mpr ⟨.file [] 0o644, by decide, nofun⟩, by decide, ?_⟩
  cbv

end Sources

end HdlAlign

import Stencil.Proofs.Routes

/-!
# Paths seen from the dot

A relative path can be spelled with a dot and a slash before it. It leads then where it led without
them, as long as it does not get too long. Only the empty path is another one: alone it leads
nowhere, and after the dot it leads to the working folder.

* `Path.dotted`: a path as it is seen from the dot.
* `Path.dotted_join`: a name is joined to it as to the path itself.
* `Disk.SameRoute`: paths that lead to the same place.
* `Disk.sameRoute_dotted`: **a path leads to the same place with the dot before it**, unless it is
  empty.
* `Disk.Stays`: paths that lead nowhere else, as the empty one does after the dot.
-/

namespace Stencil

open Stencil.Path (slash dot)

namespace Path

variable {path base : Path} {name : Bytes}

theorem join_bytes_of_slash {other : Path} (h : other.isAbsolute = false)
    (hslash : base.bytes.getLast? = some slash) : (base.join other).bytes =
      base.bytes ++ other.bytes := by
  simp [join, h, hslash]

/-- The path as it is seen from the folder that a dot stands for. -/
def dotted (path : Path) : Path := (⟨[dot]⟩ : Path).join path

theorem dotted_of_isAbsolute (h : path.isAbsolute = true) : path.dotted = path := join_absolute h

theorem bytes_dotted (h : path.isAbsolute = false) : path.dotted.bytes = dot :: slash :: path.bytes :=
  join_bytes_of_relative h (by simp) (by decide)

theorem isAbsolute_dotted (path : Path) : path.dotted.isAbsolute = path.isAbsolute := by
  cases habsolute : path.isAbsolute with
  | true => rw [dotted_of_isAbsolute habsolute, habsolute]
  | false =>
    rw [isAbsolute, bytes_dotted habsolute]
    rfl

theorem bytes_dotted_ne_nil (path : Path) : path.dotted.bytes ≠ [] := by
  cases habsolute : path.isAbsolute with
  | false =>
    rw [bytes_dotted habsolute]
    exact List.cons_ne_nil dot _
  | true =>
    rw [dotted_of_isAbsolute habsolute]
    intro hnil
    simp [isAbsolute, hnil] at habsolute

/-- **A name is joined to a dotted path** as to the path itself. -/
theorem dotted_join (base : Path) (h : name.IsFileName) :
    base.dotted.join ⟨name⟩ = (base.join ⟨name⟩).dotted := by
  have hjoin := isAbsolute_join base h
  cases habsolute : base.isAbsolute with
  | true => rw [dotted_of_isAbsolute habsolute, dotted_of_isAbsolute (hjoin.trans habsolute)]
  | false =>
    have hname := isAbsolute_name h
    have hbytes := bytes_dotted (hjoin.trans habsolute)
    suffices (base.dotted.join ⟨name⟩).bytes = (base.join ⟨name⟩).dotted.bytes from
      congrArg Path.mk this
    have hdotted := bytes_dotted habsolute
    rw [hbytes]
    by_cases hnil : base.bytes = []
    · have hslash : base.dotted.bytes.getLast? = some slash := by rw [hdotted, hnil]; rfl
      rw [join_bytes_of_slash hname hslash, hdotted, hnil]
      simp [join, hname, hnil]
    · have hlast : base.dotted.bytes.getLast? = base.bytes.getLast? := by
        obtain ⟨c, hc⟩ := Option.isSome_iff_exists.1 (List.getLast?_isSome.2 hnil)
        simp [hdotted, List.getLast?_cons, hc]
      by_cases hslash : base.bytes.getLast? = some slash
      · rw [join_bytes_of_slash hname (hlast.trans hslash), join_bytes_of_slash hname hslash, hdotted]
        rfl
      · rw [join_bytes_of_relative hname (bytes_dotted_ne_nil base) (hlast ▸ hslash),
          join_bytes_of_relative hname hnil hslash, hdotted]
        rfl

end Path

namespace Disk

variable {disk : Disk} {folder location : Location} {path other : Path} {purpose : Purpose}
  {steps : List Step}

/-- A dot and a slash before the path do not make it too long. -/
def HasRoom (path : Path) : Prop :=
  unusable? path.dotted = some .nameTooLong → unusable? path = some .nameTooLong

instance (path : Path) : Decidable (HasRoom path) :=
  inferInstanceAs (Decidable (_ → _))

theorem length_dotted (h : path.isAbsolute = false) :
    path.dotted.bytes.length = path.bytes.length + 2 := by
  rw [Path.bytes_dotted h]
  rfl

theorem hasRoom_of_length (h : path.bytes.length + 2 < pathLimit) : HasRoom path := by
  intro hlong
  cases habsolute : path.isAbsolute with
  | true =>
    rwa [Path.dotted_of_isAbsolute habsolute] at hlong
  | false =>
    have hlength := length_dotted habsolute
    unfold unusable? at hlong
    grind

/-- A path that is not empty can be used with the dot before it as it can without. -/
theorem unusable?_dotted (hne : path.bytes ≠ []) (hroom : HasRoom path) :
    unusable? path.dotted = unusable? path := by
  cases habsolute : path.isAbsolute with
  | true => rw [Path.dotted_of_isAbsolute habsolute]
  | false =>
    have hlength := length_dotted habsolute
    have hcontains : path.dotted.bytes.contains 0 = path.bytes.contains 0 := by
      rw [Path.bytes_dotted habsolute]
      rfl
    have hdotted := Path.bytes_dotted_ne_nil path
    unfold HasRoom at hroom
    unfold unusable? at hroom ⊢
    grind

/-- **The steps of a dotted path** are those of the path, after one that stays. -/
theorem stepsOf_dotted (h : path.isAbsolute = false) (hne : path.bytes ≠ []) :
    stepsOf path.dotted.bytes = .here :: stepsOf path.bytes := by
  obtain ⟨piece, pieces, hsplit, hpiece⟩ := Path.exists_piece h hne
  have hdotted : splitAt slash (dot :: slash :: path.bytes) = [[dot]] ++ splitAt slash path.bytes :=
    splitAt_append_cons slash [dot] path.bytes
  have hlast : (dot :: slash :: path.bytes).getLast? = path.bytes.getLast? := by
    obtain ⟨last, hlast⟩ := Option.isSome_iff_exists.1 (List.getLast?_isSome.2 hne)
    simp [List.getLast?_cons, hlast]
  have hdot : stepOf [dot] = .here := rfl
  unfold stepsOf
  simp [Path.bytes_dotted h, hdotted, hsplit, hpiece, hlast, hdot]

/-- A walk stays in a folder at a dot. -/
theorem walk_here (h : disk.node? location = some .folder) (links : Nat) :
    disk.walk purpose links location (.here :: steps) = disk.walk purpose links location steps := by
  have hhere : disk.advance purpose location (.here :: steps) =
      disk.advance purpose location steps := by
    rw [advance, if_neg (by simp [h])]
  unfold walk
  rw [hhere]

/-- The paths lead to the same place, whatever there is on the disk. -/
def SameRoute (folder : Location) (path other : Path) : Prop :=
  ∀ (disk : Disk) (purpose : Purpose), disk.node? folder = some .folder →
    disk.locate purpose folder other = disk.locate purpose folder path

theorem SameRoute.symm (h : SameRoute folder path other) : SameRoute folder other path :=
  fun disk purpose hfolder => (h disk purpose hfolder).symm

section

variable (h : SameRoute folder path other) (hfolder : disk.node? folder = some .folder)
include h hfolder

theorem SameRoute.isPresent_eq : disk.isPresent folder other = disk.isPresent folder path := by
  simp only [isPresent, h disk .find hfolder]

theorem SameRoute.isFolder_eq : disk.isFolder folder other = disk.isFolder folder path := by
  simp only [isFolder, h disk .find hfolder]

theorem SameRoute.readBytes_eq : disk.readBytes folder other = disk.readBytes folder path := by
  simp only [readBytes, h disk .find hfolder]

end

/-- **A path leads to the same place with the dot before it**, unless it is empty. -/
theorem sameRoute_dotted (folder : Location) (hne : path.bytes ≠ []) (hroom : HasRoom path) :
    SameRoute folder path path.dotted := by
  intro disk purpose hfolder
  cases habsolute : path.isAbsolute with
  | true => rw [Path.dotted_of_isAbsolute habsolute]
  | false =>
    have hstart : startOf folder path.bytes = folder := by
      rw [startOf_eq, habsolute]
      rfl
    have hstart' : startOf folder path.dotted.bytes = folder := by
      rw [Path.bytes_dotted habsolute]
      rfl
    unfold locate
    rw [unusable?_dotted hne hroom, stepsOf_dotted habsolute hne, hstart, hstart',
      walk_here hfolder]

/-- A walk at dots and slashes stays in its folder. -/
theorem walk_of_idle (hfolder : disk.node? location = some .folder) (links : Nat)
    (hidle : ∀ step ∈ steps, step = .here ∨ step = .slash) :
    disk.walk purpose links location steps = .ok location := by
  have hadvance : disk.advance purpose location steps = .ok (.at location) := by
    induction steps with
    | nil => rfl
    | cons step steps ih =>
      obtain ⟨hstep, hsteps⟩ := List.forall_mem_cons.1 hidle
      unfold advance
      rw [if_neg (by simp [hfolder])]
      rcases hstep with rfl | rfl
      · exact ih hsteps
      · exact ih hsteps
  rw [walk, hadvance]

/-- The path is made of dots and slashes, and leads nowhere else. -/
structure Stays (path : Path) : Prop where
  isAbsolute : path.isAbsolute = false
  usable : unusable? path = none
  idle : ∀ step ∈ stepsOf path.bytes, step = .here ∨ step = .slash

theorem stays_dot : Stays ⟨[dot]⟩ := ⟨rfl, by decide, by decide⟩

theorem stays_dotted_nil : Stays (⟨[]⟩ : Path).dotted := ⟨rfl, by decide, by decide⟩

theorem Stays.startOf_eq (h : Stays path) (folder : Location) :
    startOf folder path.bytes = folder := by
  rw [Disk.startOf_eq, h.isAbsolute]
  rfl

/-- A path that stays leads to the working folder. -/
theorem Stays.locate_eq (h : Stays path) (hfolder : disk.node? folder = some .folder)
    (purpose : Purpose) : disk.locate purpose folder path = .ok folder := by
  rw [locate, h.usable, h.startOf_eq]
  exact walk_of_idle hfolder mostLinks h.idle

/-- **A path stands for the same place with the dot before it.** -/
theorem denotes_dotted_iff (hroom : HasRoom path) (hfolder : disk.node? folder = some .folder) :
    disk.Denotes folder path.dotted location ↔ disk.Denotes folder path location := by
  have hdotted := Path.bytes_dotted_ne_nil path
  by_cases hnil : path.bytes = []
  · obtain rfl : path = ⟨[]⟩ := congrArg Path.mk hnil
    simp [Denotes, hdotted, stays_dotted_nil.locate_eq hfolder, locate_nil, eq_comm]
  · simp only [Denotes, hdotted, hnil, sameRoute_dotted folder hnil hroom disk .find hfolder]

end Disk

end Stencil

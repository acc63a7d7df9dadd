import Recast.Foundation.Disk
import Recast.Checkpoint.Format

/-!
# One checkpoint call

`checkpoint` as a program of file-system steps and of reads and writes of
`checkpoint_generation_`. Each file is written under a temporary name and
renamed; the manifest comes last.
-/

namespace Recast

open Foundation

/-- The files of a checkpoint in the storage root. -/
inductive CheckpointName where
  | quantizer
  | listSizes (generation : Nat)
  | postings (generation : Nat)
  | manifest
  deriving DecidableEq, Repr

/-- A file under its own name, or under its name with `.tmp` appended. -/
inductive CheckpointPath where
  | final (name : CheckpointName)
  | temporary (name : CheckpointName)
  deriving DecidableEq, Repr

/-- The checkpoint files, each stamped with the call that wrote it. -/
abbrev CheckpointDisk := Disk CheckpointPath Nat

/-- A file to be written by a call. -/
inductive CheckpointTarget where
  | quantizer
  | listSizes (generation : Nat)
  | postings (generation : Nat)
  | manifest (generation : Nat)
  deriving DecidableEq, Repr

/-- Where a call stands. `checkpoint_generation_` is read in `choose` and again
in `retire`, and written in `store`. -/
inductive CheckpointPhase where
  | create (target : CheckpointTarget)
  | writing (target : CheckpointTarget) (file written : Nat)
  | install (target : CheckpointTarget)
  | choose
  | retire (generation : Nat)
  | store (generation oldGeneration : Nat)
  | removeSizes (oldGeneration : Nat)
  | removePostings (oldGeneration : Nat)
  | returned
  | threw
  deriving DecidableEq, Repr

namespace CheckpointTarget

def name : CheckpointTarget → CheckpointName
  | quantizer => .quantizer
  | listSizes generation => .listSizes generation
  | postings generation => .postings generation
  | manifest _ => .manifest

/-- What the call writes to the file. -/
def contents (config : CheckpointConfig) (index : Index) : CheckpointTarget → Except Error Bytes
  | quantizer => .ok config.quantizerFile
  | listSizes _ => .ok (listSizesFile config index)
  | postings _ => postingsFile config index
  | manifest generation => .ok (checkpointManifest config index generation).encode

/-- What follows once the file is installed. -/
def next : CheckpointTarget → CheckpointPhase
  | quantizer => .choose
  | listSizes generation => .create (.postings generation)
  | postings generation => .create (.manifest generation)
  | manifest generation => .retire generation

end CheckpointTarget

/-- What the calls share: the files and the index. -/
structure CheckpointShared where
  disk : CheckpointDisk
  index : Index

/-- Set `checkpoint_generation_`. -/
def CheckpointShared.setGeneration (shared : CheckpointShared) (generation : Nat) :
    CheckpointShared :=
  { shared with index := { shared.index with checkpointGeneration := generation } }

/-- One step of the call `number`. A stream writes up to `chunk` bytes at its
own position. -/
def CheckpointPhase.advance (config : CheckpointConfig) (number chunk : Nat)
    (shared : CheckpointShared) : CheckpointPhase → CheckpointShared × CheckpointPhase
  | .create target =>
      let (disk, file) := shared.disk.openTruncated (.temporary target.name) number
      ({ shared with disk }, .writing target file 0)
  | .writing target file written =>
      match target.contents config shared.index with
      | .error _ => (shared, .threw)
      | .ok bytes =>
          if bytes.length ≤ written then (shared, .install target) else
          let data := slice bytes written chunk
          ({ shared with disk := shared.disk.write file written data },
            .writing target file (written + data.length))
  | .install target =>
      match shared.disk.rename (.temporary target.name) (.final target.name) with
      | some disk => ({ shared with disk }, target.next)
      | none => (shared, .threw)
  | .choose =>
      let generation := (shared.index.checkpointGeneration + 1) % 2 ^ 64
      if generation = 0 then (shared, .threw) else (shared, .create (.listSizes generation))
  | .retire generation => (shared, .store generation shared.index.checkpointGeneration)
  | .store generation oldGeneration =>
      (shared.setGeneration generation,
        if oldGeneration = 0 then .returned else .removeSizes oldGeneration)
  | .removeSizes oldGeneration =>
      ({ shared with disk := shared.disk.unlink (.final (.listSizes oldGeneration)) },
        .removePostings oldGeneration)
  | .removePostings oldGeneration =>
      ({ shared with disk := shared.disk.unlink (.final (.postings oldGeneration)) }, .returned)
  | .returned => (shared, .returned)
  | .threw => (shared, .threw)

/-- The phases in which the call can still throw. The removals ignore their
errors. -/
def CheckpointPhase.CanThrow : CheckpointPhase → Prop
  | .create _ | .writing .. | .install _ | .choose => True
  | _ => False

/-- The file a call has open. -/
def CheckpointPhase.open? : CheckpointPhase → Option Nat
  | .writing _ file _ => some file
  | _ => none

/-- The state of a loaded index, from the files on the disk. -/
def reloadCheckpoint (config : CheckpointConfig) (disk : CheckpointDisk)
    (records : Nat → Option Bytes) : Except Error Index :=
  loadCheckpoint config (disk.read (.final .manifest)) (fun g => disk.read (.final (.listSizes g)))
    (fun g => disk.read (.final (.postings g))) records

end Recast

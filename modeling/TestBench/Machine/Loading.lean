import TestBench.Files.Basic
import TestBench.Image.Codec
import TestBench.Machine.Interpreter

/-!
Loading a machine. A resolver gives the image that a name stands for; beginning
with the entry, every image is asked for once, and the names that it refers to
are queued behind those that wait already.
-/
namespace TestBench

inductive ResolutionFault where
  | notInClosure (name : String)
  | unreadable (name path : String) (error : FileError)
  | digestMismatch (name path : String)
  | corrupt (name : String) (defect : Image.Defect)
  | misnamed (name found : String)
  deriving DecidableEq, Repr

namespace ResolutionFault

def message : ResolutionFault → String
  | .notInClosure name =>
    "could not resolve dependency '" ++ name
      ++ "': it is not part of the materialized closure"
  | .unreadable name path error =>
    "could not load '" ++ name ++ "' from " ++ path ++ ": " ++ error.message
  | .digestMismatch name path =>
    "image '" ++ name ++ "' at " ++ path ++ " does not match its closure digest"
  | .corrupt name defect => "image '" ++ name ++ "' is corrupt: " ++ defect.message
  | .misnamed name found => "file for '" ++ name ++ "' contains image '" ++ found ++ "'"

end ResolutionFault

/-- The names that can be resolved, and what they are resolved to. -/
structure Resolver where
  index : List String
  fetch : String → Except ResolutionFault Image

namespace Resolver

def resolve (r : Resolver) (name : String) : Except ResolutionFault Image :=
  if r.index.contains name then r.fetch name else .error (.notInClosure name)

/-- The image that the bytes under a name hold, which must have that name. -/
def decoded (name : String) (bytes : Bytes) : Except ResolutionFault Image :=
  match Image.decode bytes with
  | .error defect => .error (.corrupt name defect)
  | .ok image => if image.name = name then .ok image else .error (.misnamed name image.name)

/-- The resolver of a fixed choice of images. -/
def ofImages (images : List (String × Image)) : Resolver :=
  ⟨images.map (·.1), fun name =>
    match images.find? (·.1 == name) with
    | some found => .ok found.2
    | none => .error (.notInClosure name)⟩

end Resolver

namespace Machine

/-- The resolvable names that are not loaded yet. -/
def missing (r : Resolver) (loaded : List (String × Image)) : List String :=
  r.index.filter fun name => !loaded.any (·.1 == name)

theorem missing_length_lt (r : Resolver) (loaded : List (String × Image)) (name : String)
    (image : Image) (known : r.index.contains name = true)
    (absent : loaded.any (·.1 == name) = false) :
    (missing r (loaded ++ [(name, image)])).length < (missing r loaded).length := by
  have step : missing r (loaded ++ [(name, image)])
      = (missing r loaded).filter (fun other => !(name == other)) := by
    simp only [missing, List.filter_filter]
    congr 1
    funext other
    simp [Bool.and_comm]
  rw [step]
  apply List.length_filter_lt_length_iff_exists.2
  refine ⟨name, ?_, by simp⟩
  rw [missing, List.mem_filter]
  exact ⟨List.contains_iff_mem.1 known, by rw [absent]; rfl⟩

theorem index_of_resolve {r : Resolver} {name : String} {image : Image}
    (h : r.resolve name = .ok image) : r.index.contains name = true := by
  unfold Resolver.resolve at h
  split at h
  · assumption
  · cases h

/-- Loads the queued names that are not loaded yet, in their order. -/
def loadQueue (r : Resolver) (loaded : List (String × Image)) :
    List String → Except ResolutionFault (List (String × Image))
  | [] => .ok loaded
  | name :: rest =>
    if _absent : loaded.any (·.1 == name) = true then loadQueue r loaded rest
    else match _found : r.resolve name with
      | .error fault => .error fault
      | .ok image => loadQueue r (loaded ++ [(name, image)]) (rest ++ image.references)
termination_by queue => ((missing r loaded).length, queue.length)
decreasing_by
  · exact Prod.Lex.right _ (by simp)
  · exact Prod.Lex.left _ _ (missing_length_lt r loaded name image
      (index_of_resolve _found) (Bool.eq_false_iff.2 _absent))

/-- A machine with the entry and all images that it refers to, directly or not. -/
def load (entry : String) (r : Resolver) (maxCallDepth : Nat) : Except ResolutionFault Machine :=
  match loadQueue r [] [entry] with
  | .error fault => .error fault
  | .ok images => .ok ⟨entry, images, min maxCallDepth callDepthCeiling⟩

end Machine

end TestBench

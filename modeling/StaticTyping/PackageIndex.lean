import StaticTyping.Dict
import StaticTyping.Source

/-!
# Packages

A resolver is asked for the files that stand at a path, and may have any answer for each.  An index
knows, for finitely many paths, the files that stand there or why they cannot be read.
-/

namespace StaticTyping

inductive PackageEntry where
  | files (files : List Source.File)
  | unreadable (message : String)

/-- Why the files of a package are not available. -/
inductive PackageError where
  | notFound (path : String)
  | unreadable (path message : String)
deriving DecidableEq

def PackageError.message : PackageError → String
  | .notFound path => "no module found at '" ++ path ++ "'"
  | .unreadable path message => "failed to load '" ++ path ++ "': " ++ message

/-- Where packages come from: the answer for each path, and how many compilations may be nested. -/
structure Resolver where
  filesAt : String → Except PackageError (List Source.File)
  depth : Nat

/-- Nothing is found anywhere. -/
def Resolver.empty : Resolver :=
  ⟨fun path => .error (.notFound path), 0⟩

/-- The packages that can be loaded, by their paths. -/
structure PackageIndex where
  entries : Dict PackageEntry

namespace PackageIndex

def empty : PackageIndex :=
  ⟨.empty⟩

/-- The number of paths that are known. -/
def size (p : PackageIndex) : Nat :=
  p.entries.entries.length

def filesAt (p : PackageIndex) (path : String) : Except PackageError (List Source.File) :=
  match p.entries.get? path with
  | some (.files (file :: files)) => .ok (file :: files)
  | some (.unreadable message) => .error (.unreadable path message)
  | _ => .error (.notFound path)

/-- An index as a resolver.  Of the packages under way each has a path of its own, so that no more
compilations are nested than there are paths. -/
def resolver (p : PackageIndex) : Resolver :=
  ⟨p.filesAt, p.size⟩

instance : Coe PackageIndex Resolver := ⟨resolver⟩

end PackageIndex
end StaticTyping

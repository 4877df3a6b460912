import DefiniteIntegral.Random.Stream
import DefiniteIntegral.Integration.Compute

/-! The sources of random numbers that a user can choose by name. -/

namespace DefiniteIntegral

/-- The kinds of random sources. -/
inductive SourceKind
  | pseudo
  | seeded
deriving DecidableEq, Repr

namespace SourceKind

/-- All kinds, in the order they are listed. -/
def all : List SourceKind :=
  [pseudo, seeded]

/-- The name of a kind. -/
def name : SourceKind → String
  | pseudo => "pseudo"
  | seeded => "seeded"

/-- What a kind is. -/
def description : SourceKind → String
  | pseudo => "Thread-local pseudo-random generator (non-reproducible)"
  | seeded => "Seeded pseudo-random generator (reproducible)"

/-- The kind of a name. -/
def ofName? (text : String) : Option SourceKind :=
  all.find? fun kind => kind.name = text

end SourceKind

/-- A random source: its kind and the stream that it draws from. -/
structure Source where
  kind : SourceKind
  stream : Stream

namespace Source

/-- The source of a kind. A seeded one goes by the seed; the other one goes by `entropy`, a number
that its surroundings provide and that differs from run to run. -/
def ofKind (entropy seed : UInt64) (kind : SourceKind) : Source :=
  match kind with
  | .pseudo => ⟨kind, Stream.ofSeed entropy⟩
  | .seeded => ⟨kind, Stream.ofSeed seed⟩

/-- The source of a name. -/
def ofName (entropy : UInt64) (name : String) (seed : UInt64) : Except (Error Float) Source :=
  match SourceKind.ofName? name with
  | some kind => .ok (ofKind entropy seed kind)
  | none => .error (.config (.unknownSource name))

/-- The next `n` numbers. -/
def draw : Supplier Source Float := fun n =>
  ExceptT.mk fun source =>
    let (numbers, stream) := source.stream.take n
    (.ok numbers, { source with stream })

/-- The answer to a request with random numbers from a source. -/
def compute (source : Source) (request : Request Float) : Except (Error Float) (Result Float) :=
  ((request.compute draw).run source).1

end Source

end DefiniteIntegral

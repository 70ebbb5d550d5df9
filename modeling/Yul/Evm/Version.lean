/-!
# Versions of the machine

The hard forks of the virtual machine in the order of their release. A later version has a larger
rank.
-/

namespace Yul

/-- A version of the machine, named after the fork that introduced it. -/
inductive EvmVersion where
  | homestead
  | tangerineWhistle
  | spuriousDragon
  | byzantium
  | constantinople
  | petersburg
  | istanbul
  | berlin
  | london
  | paris
  | shanghai
  | cancun
  | prague
deriving DecidableEq, Repr

namespace EvmVersion

/-- All versions, the oldest first. -/
def all : List EvmVersion :=
  [homestead, tangerineWhistle, spuriousDragon, byzantium, constantinople, petersburg, istanbul,
    berlin, london, paris, shanghai, cancun, prague]

/-- The version meant when none is named. -/
def latest : EvmVersion := cancun

instance : Inhabited EvmVersion := ⟨latest⟩

/-- Position in the order of release. -/
def rank (v : EvmVersion) : Nat :=
  v.ctorIdx

instance : LE EvmVersion := ⟨fun v w => v.rank ≤ w.rank⟩

instance : LT EvmVersion := ⟨fun v w => v.rank < w.rank⟩

instance (v w : EvmVersion) : Decidable (v ≤ w) :=
  inferInstanceAs (Decidable (v.rank ≤ w.rank))

instance (v w : EvmVersion) : Decidable (v < w) :=
  inferInstanceAs (Decidable (v.rank < w.rank))

/-- The name under which a version is chosen. -/
def name : EvmVersion → String
  | homestead => "homestead"
  | tangerineWhistle => "tangerineWhistle"
  | spuriousDragon => "spuriousDragon"
  | byzantium => "byzantium"
  | constantinople => "constantinople"
  | petersburg => "petersburg"
  | istanbul => "istanbul"
  | berlin => "berlin"
  | london => "london"
  | paris => "paris"
  | shanghai => "shanghai"
  | cancun => "cancun"
  | prague => "prague"

/-- The fork's name in prose. -/
def forkName : EvmVersion → String
  | homestead => "Homestead"
  | tangerineWhistle => "Tangerine Whistle"
  | spuriousDragon => "Spurious Dragon"
  | byzantium => "Byzantium"
  | constantinople => "Constantinople"
  | petersburg => "Petersburg"
  | istanbul => "Istanbul"
  | berlin => "Berlin"
  | london => "London"
  | paris => "Paris"
  | shanghai => "Shanghai"
  | cancun => "Cancun"
  | prague => "Prague"

/-- Whether two texts differ in the case of ASCII letters only. -/
def sameLetters (a b : String) : Bool :=
  a.toList.map Char.toLower == b.toList.map Char.toLower

/-- The version of a name, which may be written in any case. -/
def ofName? (name : String) : Option EvmVersion :=
  all.find? fun v => sameLetters v.name name

/-- What is said about a name that no version has. -/
def unknownMessage (name : String) : String :=
  s!"unknown EVM version '{name}'"

end EvmVersion

end Yul

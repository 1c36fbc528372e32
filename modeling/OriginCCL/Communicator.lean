/-
  File:      OriginCCL/Communicator.lean
  Subject:   RANKS AND MACHINES (`Communicator::Init`, `src/communicator.cpp`).

  Ranks with the same hostname are on one machine. A machine is numbered by its first rank and led by
  it.

  * `Communicator.group` -- what every rank computes from the hostnames of all.
-/
import OriginCCL.Types

namespace OriginCCL

/-- What a topology asks its communicator. -/
structure Communicator where
  rank : Nat
  worldSize : Nat
  localRank : Nat
  localRanks : List Nat
  machineIndex : Nat
  machineCount : Nat
  machineLeaders : List Int

section Grouping

variable {H : Type} [DecidableEq H]

namespace Machines

/-- The ranks on the machine of `rank`. -/
def localRanks (hosts : Nat → H) (worldSize rank : Nat) : List Nat :=
  (List.range worldSize).filter fun q => hosts q = hosts rank

/-- The hostnames, in the order of their first ranks. -/
def machineHosts (hosts : Nat → H) (worldSize : Nat) : List H :=
  (List.range worldSize).foldl (fun hs q => if hosts q ∈ hs then hs else hs ++ [hosts q]) []

/-- The machine of a rank. -/
def machineIndex (hosts : Nat → H) (worldSize rank : Nat) : Nat :=
  (machineHosts hosts worldSize).idxOf (hosts rank)

/-- The first rank of every machine. -/
def machineLeaders (hosts : Nat → H) (worldSize : Nat) : List Int :=
  (List.range worldSize).foldl
    (fun leaders q =>
      let m := machineIndex hosts worldSize q
      if leaders.getD m 0 < 0 then leaders.set m q else leaders)
    (List.replicate (machineHosts hosts worldSize).length (-1))

end Machines

/-- What a rank computes from the hostnames of all ranks. -/
def Communicator.group (hosts : Nat → H) (worldSize rank : Nat) : Communicator where
  rank := rank
  worldSize := worldSize
  localRank := (Machines.localRanks hosts worldSize rank).idxOf rank
  localRanks := Machines.localRanks hosts worldSize rank
  machineIndex := Machines.machineIndex hosts worldSize rank
  machineCount := (Machines.machineHosts hosts worldSize).length
  machineLeaders := Machines.machineLeaders hosts worldSize

end Grouping

end OriginCCL

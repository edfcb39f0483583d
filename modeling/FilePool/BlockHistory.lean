import Mathlib.Data.List.Basic
import Mathlib.Logic.Function.Basic

/-!
A disk as the history of its writes. The number of writes so far is a version of the
disk. A change copy from one version to a later one has the blocks that were written in
between, as they are at the later version.
-/
namespace FilePool.BlockHistory

variable {β ν : Type}

structure Write (β ν : Type) where
  block : β
  value : ν
  deriving DecidableEq, Repr

/-- The blocks written between two versions. -/
def changedBetween (ws : List (Write β ν)) (m n : ℕ) : List β :=
  ((ws.take n).drop m).map Write.block

variable [DecidableEq β]

def Write.put (w : Write β ν) (c : β → ν) : β → ν := Function.update c w.block w.value

def afterAll (c : β → ν) (ws : List (Write β ν)) : β → ν := ws.foldl (fun c w => w.put c) c

/-- The content after the first writes. -/
def contentAt (c : β → ν) (ws : List (Write β ν)) (n : ℕ) : β → ν := afterAll c (ws.take n)

def overlay (blocks : List β) (new old : β → ν) : β → ν :=
  fun b => if b ∈ blocks then new b else old b

end FilePool.BlockHistory

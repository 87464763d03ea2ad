/-! A table is a list of entries in increasing order of their keys, no two of them equal under the
order. An entry keeps the key it was first written under. -/
namespace Coupling.Sorted

variable {κ ν : Type} [Ord κ]

/-- Writes an entry: its place is that of an equal key, whose value is replaced. -/
def insert (k : κ) (v : ν) : List (κ × ν) → List (κ × ν)
  | [] => [(k, v)]
  | (k', v') :: rest =>
    match compare k k' with
    | .lt => (k, v) :: (k', v') :: rest
    | .eq => (k', v) :: rest
    | .gt => (k', v') :: insert k v rest

def find? (k : κ) : List (κ × ν) → Option ν
  | [] => none
  | (k', v) :: rest => if compare k k' = .eq then some v else find? k rest

def erase (k : κ) : List (κ × ν) → List (κ × ν)
  | [] => []
  | (k', v) :: rest => if compare k k' = .eq then rest else (k', v) :: erase k rest

def add (k : κ) : List κ → List κ
  | [] => [k]
  | k' :: rest =>
    match compare k k' with
    | .lt => k :: k' :: rest
    | .eq => k' :: rest
    | .gt => k' :: add k rest

def has (k : κ) (ks : List κ) : Bool := ks.any fun k' => compare k k' = .eq

def ofList (ks : List κ) : List κ := ks.foldl (fun s k => add k s) []

end Coupling.Sorted

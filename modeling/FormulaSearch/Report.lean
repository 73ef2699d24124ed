import FormulaSearch.Decimal.Notation

/-!
# Reports

The lines that a search and a single fit print. Rates are shown with the more places the smaller they are.
-/

namespace FormulaSearch.Report

open Decimal

/-- The line that ends a report. -/
def rule : String := String.ofList (List.replicate 42 '-')

/-! ## Rates -/

/-- The places shown for a rate per second. -/
def placesFor (rate : Float) : Nat :=
  if rate > 1000.0 then 0
  else if rate > 100.0 then 1
  else if rate > 10.0 then 2
  else if rate > 0.1 then 3
  else if rate > 0.01 then 4
  else if rate > 0.001 then 5
  else 6

/-- A count of places that is not offered. -/
structure UnsupportedPlaces where
  places : Int
deriving DecidableEq, Repr

def UnsupportedPlaces.message (e : UnsupportedPlaces) : String :=
  "unsupported number of decimal places: " ++ toString e.places

/-- A number with some places, up to seven. -/
def withPlaces (v : Float) (places : Int) : Except UnsupportedPlaces String :=
  if 0 ≤ places ∧ places ≤ 7 then .ok (fixedText places.toNat v) else .error ⟨places⟩

/-- A rate with the places that suit it. -/
def rate (v : Float) : String := fixedText (placesFor v) v

/-- A whole number as a double. -/
def wholeNumber (n : Int) : Float := nearest (n < 0) n.natAbs 1

/-- How many per second; nothing counts before time has passed. -/
def perSecond (count : Int) (elapsed : Float) : Float :=
  if elapsed > 0.0 then wholeNumber count / elapsed else 0.0

/-! ## Blocks of lines -/

/-- The lines on progress. -/
def stats (generated fitted : Int) (elapsed : Float) : List String :=
  [ "candidates generated: " ++ toString generated ++ "\t" ++ rate (perSecond generated elapsed)
      ++ "/s",
    "candidates fitted   : " ++ toString fitted ++ "\t" ++ rate (perSecond fitted elapsed)
      ++ "/s" ]

/-- The block on a new best candidate. -/
def best (iterations : Int) (closed tidy : String) (residue : Float) : List String :=
  [ "FOUND NEW BEST FUNCTION:",
    "fit_iters: " ++ toString iterations,
    "FUNCTION:",
    closed,
    "SIMPLIFIED:",
    tidy,
    "residue = " ++ fullText residue,
    rule ]

/-- The block on a single fit. -/
def single (iterations : Int) (closed : String) (residue : Float) : List String :=
  [ "fit_iters: " ++ toString iterations,
    "FUNCTION:",
    closed,
    "residue = " ++ fullText residue,
    rule ]

end FormulaSearch.Report

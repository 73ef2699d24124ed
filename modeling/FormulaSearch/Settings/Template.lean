/-!
# Named templates

A template is the text of a formula with first values for its parameters. Some have names; any other
text is a template that names itself. Values given beside a name take precedence over its own.
-/

namespace FormulaSearch

structure Template where
  text : String
  values : List (String × Float)

namespace Template

/-- Puts a value under a name: in its place if the name is there, at the end otherwise. -/
def put (entries : List (String × Float)) (name : String) (value : Float) : List (String × Float) :=
  if entries.any (·.1 == name) then
    entries.map fun (n, v) => (n, if n == name then value else v)
  else entries ++ [(name, value)]

/-- Entries with others put over them, one after another. -/
def putAll (entries others : List (String × Float)) : List (String × Float) :=
  others.foldl (fun es (n, v) => put es n v) entries

/-- The templates that have a name. -/
def presets : List (String × Template) :=
  [ ("exp_shift",
      ⟨"h + a*exp(k*(x-m))", [("h", 0.0), ("a", 1.0), ("k", -1.0), ("m", 0.0)]⟩),
    ("two_gaussians",
      ⟨"h + a*exp(-((x-m)/s)^2) + b*exp(-((x-n)/t)^2)",
        [("h", 0.5), ("a", 5.0), ("m", 1.5), ("s", 0.6), ("b", 2.5), ("n", 3.5), ("t", 0.6)]⟩),
    ("benchmark",
      ⟨"((exp(x) / x)^(w))^(q) * (x * f)", [("f", -1.0), ("q", -1.0), ("w", -1.0)]⟩) ]

/-- The template with a name, or the text itself, with the given values over it. -/
def resolve (nameOrText : String) (overrides : List (String × Float)) : Template :=
  let t := (presets.lookup nameOrText).getD ⟨nameOrText, []⟩
  { t with values := putAll t.values overrides }

end Template

end FormulaSearch

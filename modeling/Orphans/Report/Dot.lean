import Orphans.Analysis

/-! The import graph in the DOT language.

Files are boxes coloured by standing, and edges point from importer to imported file. Inside a quoted
label, quotes and backslashes are escaped, so that a label ends at its first bare quote.
-/

set_option autoImplicit false

namespace Orphans.Report

def escapeLabelChar (c : Char) : List Char :=
  if c = '\\' then ['\\', '\\'] else if c = '"' then ['\\', '"'] else [c]

def label (text : String) : List Char :=
  '"' :: (text.toList.flatMap escapeLabelChar ++ ['"'])

def dotOpening : List String :=
  ["digraph deadfile \x7b", "  rankdir=LR;",
    "  node [shape=box, style=filled, fontname=\"JetBrains Mono\"];", ""]

def dotClosing : List String := ["\x7d"]

def referencedColour : String := "lightgreen"

def unreferencedColour : String := "lightcoral"

def exemptColour : String := "lightblue"

def nodeLine (colour file : String) : List Char :=
  ' ' :: ' ' :: (label file ++ " [fillcolor=".toList ++ colour.toList ++ "];".toList)

def edgeLine (edge : Edge) : List Char :=
  ' ' :: ' ' :: (label edge.importer ++ " -> ".toList ++ label edge.imported ++ [';'])

def dotLines (analysis : Analysis) : List (List Char) :=
  dotOpening.map String.toList ++
    (analysis.referenced.map (nodeLine referencedColour) ++
      analysis.unreferenced.map (nodeLine unreferencedColour) ++
      analysis.exempt.map (nodeLine exemptColour)) ++
    [[]] ++ analysis.edges.map edgeLine ++ dotClosing.map String.toList

def dot (analysis : Analysis) : String :=
  .ofList ((dotLines analysis).flatMap fun line => line ++ ['\n'])

end Orphans.Report

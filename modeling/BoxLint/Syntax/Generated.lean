import BoxLint.Text.Cut

/-!
# Generated files

Tools mark the files they generate by the file's name or by a comment in its header. The directories
of a path do not matter, and neither does the case of ASCII letters in the name.
-/

namespace BoxLint.Generated

/-- What parts the directories of a path. -/
def isSeparator (c : Char) : Bool := c == '/' || c == '\\'

/-- The name of a file: its path after the last separator. -/
def fileName (path : List Char) : List Char :=
  match Text.cutLast? isSeparator path with
  | some (_, name) => name
  | none => path

/-- How the names of temporary generated files begin, in lower case. -/
def temporaryStart : String := "temporarygeneratedfile_"

/-- How the names of generated files end, in lower case. -/
def endings : List String :=
  [".g.cs", ".g.i.cs", ".designer.cs", ".generated.cs",
    ".g.vb", ".g.i.vb", ".designer.vb", ".generated.vb"]

/-- Whether a path names a generated file. -/
def isGeneratedPath (path : String) : Bool :=
  let name := (fileName path.toList).map Char.toLower
  temporaryStart.toList.isPrefixOf name || endings.any (·.toList.isSuffixOf name)

/-- The comments by which a header tells that the file was generated. -/
def headerMarks : List String := ["<auto-generated", "<autogenerated"]

/-- Whether a header tells that the file was generated. -/
def isGeneratedHeader (header : String) : Bool :=
  headerMarks.any fun mark => Text.occurs mark.toList header.toList

end BoxLint.Generated

/-! What the command says of itself. -/

namespace TigerLang.CommandLine

def versionText : String := "tigerc 0.1.0\n"

def usageText : String := "Usage: tigerc [OPTIONS] <INPUT>\n"

structure HelpValue where
  name : String
  summary : String

structure HelpEntry where
  form : String
  summary : String
  values : List HelpValue := []
  preset : Option String := none

def inputEntry : HelpEntry where
  form := "<INPUT>"
  summary := "Source file path"

def emitValues : List HelpValue :=
  [⟨"binary", "Native executable via llc and clang"⟩, ⟨"ir", "Textual LLVM IR"⟩,
   ⟨"tree", "Indented syntax tree"⟩, ⟨"check", "Only report diagnostics"⟩]

def optionEntries (help : String) : List HelpEntry :=
  [{ form := "-o, --output <OUTPUT>"
     summary := "Output path (defaults to `build/output`, or `build/out.ll` with `--emit ir`)" },
   { form := "    --emit <EMIT>"
     summary := "What to produce"
     values := emitValues
     preset := some "binary" },
   { form := "    --link <LINK>"
     summary := "Runtime library (C source or object) to link into the executable" },
   { form := "    --no-verify", summary := "Skip the LLVM module verifier" },
   { form := "-h, --help", summary := "Print help " ++ help },
   { form := "-V, --version", summary := "Print version" }]

def fill (width : Nat) (text : String) : String := text.pushn ' ' (width - text.length)

namespace HelpEntry

def presetNote (entry : HelpEntry) : Option String :=
  entry.preset.map fun name => "[default: " ++ name ++ "]"

def valuesNote (entry : HelpEntry) : Option String :=
  if entry.values.isEmpty then none
  else some ("[possible values: " ++ ", ".intercalate (entry.values.map (·.name)) ++ "]")

def line (width : Nat) (entry : HelpEntry) : String :=
  let notes := entry.presetNote.toList ++ entry.valuesNote.toList
  "  " ++ fill (width + 2) entry.form ++ " ".intercalate (entry.summary :: notes) ++ "\n"

def valueLines (entry : HelpEntry) : List String :=
  let width := (entry.values.map (·.name.length)).foldr max 0
  entry.values.map fun v => "- " ++ fill (width + 2) (v.name ++ ":") ++ v.summary

def indented (text : String) : String := "          " ++ text ++ "\n"

def paragraph (entry : HelpEntry) : String :=
  let values :=
    if entry.values.isEmpty then ""
    else "\n" ++ String.join (("Possible values:" :: entry.valueLines).map indented)
  let preset := entry.presetNote.toList.flatMap fun note => [indented "", indented note]
  "  " ++ entry.form ++ "\n" ++ indented entry.summary ++ values ++ String.join preset

end HelpEntry

def helpPage (arguments options : String) : String :=
  "Compiles Tiger programs through LLVM\n\n" ++ usageText ++ "\nArguments:\n" ++ arguments ++
    "\nOptions:\n" ++ options

def helpText : String :=
  helpPage (inputEntry.line 7)
    (String.join ((optionEntries "(see more with '--help')").map (HelpEntry.line 21)))

def manualText : String :=
  helpPage inputEntry.paragraph
    (String.intercalate "\n" ((optionEntries "(see a summary with '-h')").map
      HelpEntry.paragraph))

end TigerLang.CommandLine

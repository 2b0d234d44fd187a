import WriteGuard.Command.Arguments

/-!
The help of the command, in a short form and in a long one.
-/

namespace WriteGuard.Command

/-- What the help says about an option. -/
structure HelpEntry where
  /-- How the option is written. -/
  form : String
  about : String
  default : Option String := none
  /-- The words that the option takes, each with what it stands for where that needs saying. -/
  values : List (String × String) := []

/-- What the command is for. -/
def purpose : String := "Lint JavaScript and TypeScript for unsafe Firestore writes\n"

/-- How the command is called. -/
def usage : String := "Usage: firestore-lint [OPTIONS] [PATHS]...\n"

/-- The options in the order of the help; `more` is what the entry on the help itself adds. -/
def helpEntries (more : String) : List HelpEntry := [
  { form := "  -f, --format <FORMAT>", about := "Output format", default := some "pretty",
    values := [("pretty", "Human-readable colored output"), ("json", "JSON output for tooling integration"),
      ("compact", "Compact one-line-per-diagnostic"), ("github", "GitHub Actions format")] },
  { form := "  -s, --severity <SEVERITY>", about := "Minimum severity to report", default := some "hint",
    values := [("error", ""), ("warning", ""), ("info", ""), ("hint", "")] },
  { form := "  -c, --categories <CATEGORIES>", about := "Rule types to check (comma-separated)",
    values := [("problem", ""), ("suggestion", "")] },
  { form := "      --disable <DISABLE>", about := "Rules to disable (comma-separated rule IDs)" },
  { form := "      --additional-objects <ADDITIONAL_OBJECTS>",
    about := "Receiver names checked by firestore-no-undefined-values (comma-separated)" },
  { form := "      --config <CONFIG>", about := "Configuration file (default: nearest .firestore-lint.toml)" },
  { form := "      --show-fixes <SHOW_FIXES>", about := "Show fix suggestions", default := some "true",
    values := [("true", ""), ("false", "")] },
  { form := "      --error-on-warnings", about := "Exit with error code on warnings" },
  { form := "  -q, --quiet", about := "Only show files with diagnostics" },
  { form := "      --stats", about := "Show rule statistics" },
  { form := "      --max-diagnostics <MAX_DIAGNOSTICS>",
    about := "Maximum number of diagnostics to show (0 for unlimited)", default := some "0" },
  { form := "      --list-rules", about := "List the available rules and exit" },
  { form := "  -h, --help", about := "Print help " ++ more },
  { form := "  -V, --version", about := "Print version" }]

namespace HelpEntry

/-- The blanks before what is said about an option. -/
def indent : String := "          "

/-- The note on the default of an option. -/
def defaultNote (e : HelpEntry) : List String := e.default.toList.map fun d => "[default: " ++ d ++ "]"

/-- The note on the words that an option takes. -/
def valuesNote (e : HelpEntry) : List String :=
  if e.values.isEmpty then [] else ["[possible values: " ++ ", ".intercalate (e.values.map (·.1)) ++ "]"]

/-- An entry of the short help. -/
def short (e : HelpEntry) : String :=
  e.form ++ "\n" ++ indent ++ " ".intercalate (e.about :: e.defaultNote ++ e.valuesNote) ++ "\n"

/-- The words that an option takes, a line for each. -/
def valueLines (e : HelpEntry) : List String :=
  let width := e.values.foldl (fun w v => max w v.1.length) 0
  e.values.map fun (word, about) =>
    indent ++ "- " ++ word ++ ":" ++ String.ofList (List.replicate (width - word.length + 1) ' ') ++ about

/-- An entry of the long help. -/
def long (e : HelpEntry) : String :=
  let explained := e.values.any fun v => v.2 ≠ ""
  let notes := e.defaultNote ++ (if explained then [] else e.valuesNote)
  let lines := [e.form, indent ++ e.about]
    ++ (if explained then ["", indent ++ "Possible values:"] ++ e.valueLines else [])
    ++ (if notes.isEmpty then [] else "" :: notes.map (indent ++ ·))
  "\n".intercalate lines ++ "\n"

end HelpEntry

/-- The help of the command. -/
def helpText (long : Bool) : String :=
  if long then
    purpose ++ "\n" ++ usage ++ "\nArguments:\n  [PATHS]...\n" ++ HelpEntry.indent ++ "Files or directories to lint\n"
      ++ "\nOptions:\n" ++ "\n".intercalate ((helpEntries "(see a summary with '-h')").map HelpEntry.long)
  else
    purpose ++ "\n" ++ usage ++ "\nArguments:\n  [PATHS]...  Files or directories to lint\n"
      ++ "\nOptions:\n" ++ String.join ((helpEntries "(see more with '--help')").map HelpEntry.short)

end WriteGuard.Command

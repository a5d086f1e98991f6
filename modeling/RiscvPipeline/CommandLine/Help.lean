import RiscvPipeline.CommandLine.Arguments

/-! The help texts of the command line. -/

namespace RiscvPipeline.CommandLine

def about : String := "Cycle-accurate RISC-V pipelined core model"

def versionLine : String := "rvpipe 0.1.0"

def commandLines : List String :=
  ["Usage: rvpipe <COMMAND>",
    "",
    "Commands:",
    "  run   Run a program image",
    "  help  Print this message or the help of the given subcommand(s)",
    "",
    "Options:"]

namespace Topic

def lines : Topic → List String
  | overview =>
    [about, ""] ++ commandLines ++
      ["  -h, --help     Print help (see more with '--help')",
        "  -V, --version  Print version"]
  | details =>
    ["Run a JSON program image on the modelled core.",
      "",
      "Examples:",
      "  rvpipe run --program prog.json",
      "  rvpipe run --program prog.json --config cfg.json --vcd out.vcd --stats",
      ""] ++ commandLines ++
      ["  -h, --help",
        "          Print help (see a summary with '-h')",
        "",
        "  -V, --version",
        "          Print version"]
  | run =>
    ["Run a program image",
      "",
      "Usage: rvpipe run [OPTIONS] --program <PROGRAM>",
      "",
      "Options:",
      "  -p, --program <PROGRAM>   Program image (JSON)",
      "  -c, --config <CONFIG>     Configuration file (JSON); built-in defaults otherwise",
      "      --cycles <CYCLES>     Cycle limit; overrides \x60general.max_cycles\x60",
      "      --vcd <VCD>           Write a VCD trace; overrides \x60general.trace_vcd\x60",
      "      --stats               Print statistics after the run. Repeat \x60--section\x60 to " ++
        "select sections",
      "      --section <SECTIONS>  Statistics section to print (summary, instruction_mix, " ++
        "stalls, system)",
      "  -h, --help                Print help"]
  | help =>
    ["Print this message or the help of the given subcommand(s)",
      "",
      "Usage: rvpipe help [COMMAND]...",
      "",
      "Arguments:",
      "  [COMMAND]...  Print help for the subcommand(s)"]

end Topic

end RiscvPipeline.CommandLine

import GroupKey.CommandLine.Settings

/-!
# Help for the command line

What a node tells about its command line, and why it refuses one.
-/

namespace GroupKey.CommandLine

def versionText : String := "group-key 0.1.0"

/-- How a slot is shown. -/
def Slot.label : Slot → String
  | sponsor => "<IS_SPONSOR>"
  | service => "<SERVICE_ID>"
  | memberCount => "<MEMBER_COUNT>"
  | shortestDelay => "<SCATTER_DELAY_MIN_MS>"
  | longestDelay => "<SCATTER_DELAY_MAX_MS>"
  | listenInterface => "[LISTEN_INTERFACE_IP]"
  | groupAddress => "[MULTICAST_IP]"
  | groupPort => "[MULTICAST_PORT]"
  | variant => "--variant <VARIANT>"
  | finishTimeout => "--finish-timeout-ms <FINISH_TIMEOUT_MS>"
  | outputDirectory => "--output-dir <OUTPUT_DIR>"

def Slot.purpose : Slot → String
  | sponsor => "Start as the initial sponsor (true|false, any case)"
  | service => "Service the group agrees on a key for"
  | memberCount => "Expected number of members, including this one"
  | shortestDelay => "Lower bound of the retransmission scatter delay, in ms"
  | longestDelay => "Upper bound of the retransmission scatter delay, in ms"
  | listenInterface => "Interface to listen on"
  | groupAddress => "Multicast group address"
  | groupPort => "Multicast group port"
  | variant => "Key agreement variant: chained or distributed [default: chained]"
  | finishTimeout => "How long the finishing member waits for acknowledgements [default: 5000]"
  | outputDirectory => "Where statistics files are written [default: statistic_results]"

def Slot.all : List Slot :=
  [sponsor, service, memberCount, shortestDelay, longestDelay, listenInterface, groupAddress,
    groupPort, variant, finishTimeout, outputDirectory]

def helpText : String :=
  let line (left right : String) : String :=
    "  " ++ left ++ String.ofList (List.replicate (42 - left.length) ' ') ++ right
  "\n".intercalate <|
    ["One member of a group key agreement over IP multicast", "",
      "Usage: group-key [OPTIONS] <IS_SPONSOR> <SERVICE_ID> <MEMBER_COUNT> " ++
        "<SCATTER_DELAY_MIN_MS> <SCATTER_DELAY_MAX_MS> " ++
        "[LISTEN_INTERFACE_IP MULTICAST_IP MULTICAST_PORT]", ""] ++
      (Slot.all.map fun slot ↦ line slot.label slot.purpose) ++
      [line "-h, --help" "Print help", line "-V, --version" "Print version"]

/-- Why a word is no value for a slot. -/
def complaint (slot : Slot) (word : String) : String :=
  match slot with
  | .sponsor => badFlagMessage word
  | .variant => Variant.unknownMessage word
  | _ => "not an acceptable value"

def Refusal.message : Refusal → String
  | helpRequested => helpText
  | versionRequested => versionText
  | unknown word => "error: unexpected argument '" ++ word ++ "' found"
  | unexpectedValue word => "error: unexpected value in '" ++ word ++ "'"
  | missingValue slot =>
    "error: a value is required for '" ++ slot.label ++ "' but none was supplied"
  | badValue slot word =>
    "error: invalid value '" ++ word ++ "' for '" ++ slot.label ++ "': " ++ complaint slot word
  | repeated slot => "error: the argument '" ++ slot.label ++ "' cannot be used multiple times"
  | missing slot => "error: the required argument '" ++ slot.label ++ "' was not provided"

end GroupKey.CommandLine

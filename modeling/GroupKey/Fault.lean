import GroupKey.Config
import GroupKey.Message.Codec
import GroupKey.Scheduler

/-!
# Failures in words

Everything that can go wrong around an agreement, by the part it went wrong in, and the conditions
that look like failures but belong to normal operation on an unreliable network.
-/

namespace GroupKey

inductive Fault
  | decode (e : DecodeError)
  | encode (reason : String)
  | crypto (reason : String)
  | transport (reason : String)
  | config (reason : String)
  deriving DecidableEq, Repr

namespace Fault

def message : Fault → String
  | decode e => "decode error: " ++ e.message
  | encode reason => "encode error: " ++ reason
  | crypto reason => "crypto error: " ++ reason
  | transport reason => "transport error: " ++ reason
  | config reason => "invalid configuration: " ++ reason

def ofCrypto (e : CryptoError) : Fault := .crypto e.message

def ofConfig (e : ConfigError) : Fault := .config e.message

end Fault

/-- What a member takes note of and carries on. -/
inductive Notice
  | duplicateAdmission (endpoint : Endpoint)
  | outOfOrderCascade (expected highestKnown : Nat)
  | timerRace (task : Task)
  deriving DecidableEq, Repr

def Notice.message : Notice → String
  | duplicateAdmission endpoint => endpoint.toText ++ " is already an assigned member"
  | outOfOrderCascade expected highest =>
    "cascade waits for member " ++ toString expected ++ ", holding values up to " ++
      toString highest
  | timerRace task => task.name ++ " fired after its guard became false"

end GroupKey

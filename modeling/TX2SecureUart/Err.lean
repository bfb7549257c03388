/-
# `Err` — the error codes of `err.h` that the modelled functions return
-/
import Mathlib

namespace TX2SecureUart

abbrev noError : Int := 0
abbrev errGeneric : Int := -1
abbrev errNotFound : Int := -2
abbrev errNotReady : Int := -3
abbrev errNoMsg : Int := -4
abbrev errNoMemory : Int := -5
abbrev errAlreadyStarted : Int := -6
abbrev errNotValid : Int := -7
abbrev errInvalidArgs : Int := -8
abbrev errNotEnoughBuffer : Int := -9
abbrev errTimedOut : Int := -13
abbrev errAlreadyExists : Int := -14
abbrev errChannelClosed : Int := -15
abbrev errNotAllowed : Int := -17
abbrev errNotSupported : Int := -24
abbrev errTooBig : Int := -25
abbrev errBadState : Int := -31
abbrev errBadLen : Int := -32
abbrev errBusy : Int := -33
abbrev errNotConfigured : Int := -38
abbrev errFault : Int := -40
abbrev errNoResources : Int := -41
abbrev errBadHandle : Int := -42
abbrev errAccessDenied : Int := -43

/-- What a call that fails returns. -/
abbrev ErrCode := {e : Int // e < 0}

end TX2SecureUart

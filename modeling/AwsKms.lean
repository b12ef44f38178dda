import AwsKms.Lib.Run
import AwsKms.Model.Keyspec
import AwsKms.Model.Provider
import AwsKms.Model.Sys
import AwsKms.Proofs.Bench
import AwsKms.Proofs.Checker
import AwsKms.Proofs.Cli
import AwsKms.Proofs.Demands
import AwsKms.Proofs.Drain
import AwsKms.Proofs.Dupctx
import AwsKms.Proofs.FipsQuery
import AwsKms.Proofs.Isolates
import AwsKms.Proofs.Keymgmt
import AwsKms.Proofs.Legal
import AwsKms.Proofs.Mu
import AwsKms.Proofs.Precedence
import AwsKms.Proofs.Probe
import AwsKms.Proofs.Provenance
import AwsKms.Proofs.Publish
import AwsKms.Proofs.Raise
import AwsKms.Proofs.Refs
import AwsKms.Proofs.Register
import AwsKms.Proofs.Render
import AwsKms.Proofs.Reparse
import AwsKms.Proofs.RoundTrip
import AwsKms.Proofs.Routing
import AwsKms.Proofs.Saltlen
import AwsKms.Proofs.Session
import AwsKms.Proofs.Settle
import AwsKms.Proofs.Stream
import AwsKms.Proofs.Stub
import AwsKms.Proofs.Teardown
import AwsKms.Proofs.Threads
import AwsKms.Proofs.Uri
import AwsKms.Proofs.Verify
import AwsKms.Proofs.Views
